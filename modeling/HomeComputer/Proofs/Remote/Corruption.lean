/-
A packet with one byte altered is refused.

The checksum is a sum modulo 256, and a byte is its own remainder, so altering one byte of the
payload always alters the sum, at whatever place and however long the payload is.  Altering a
digit leaves the sum and spells another one, or none.  Either way the packet is still one packet,
as long as the new byte of the payload neither begins nor ends one, and its digits are not those
of its sum: the reader tells of a corrupt packet and is outside again.

The server says so to the client and does nothing else.  The bytes may reach it in any number of
pieces, and a long packet takes more than one poll.  What carries over the polls is that
everything the reader tells of is corrupt (`Refuses`), which a stretch has from any longer one
that it begins.
-/
import HomeComputer.Proofs.Remote.Hexadecimal
import HomeComputer.Proofs.Remote.Replies

namespace HomeComputer

namespace Packet

/-! ### Altered packets -/

/-- The packet with a payload, with exactly one byte of the payload or one digit replaced.  The
new byte of a payload is no `$` and no `#`, and the new digit is none with the value of the old
one. -/
inductive Altered (payload : List Byte) : List Byte → Prop
  | byte {i : Nat} {c : Byte} (hi : i < payload.length) (hne : c ≠ payload[i])
      (hopening : c ≠ opening) (hclosing : c ≠ closing) :
      Altered payload ((frame payload).set (i + 1) c)
  | highDigit {c : Byte} (hne : ¬Hex.Spells c ((checksum payload).toNat / 16)) :
      Altered payload ((frame payload).set (payload.length + 2) c)
  | lowDigit {c : Byte} (hne : ¬Hex.Spells c ((checksum payload).toNat % 16)) :
      Altered payload ((frame payload).set (payload.length + 3) c)

section

variable {payload : List Byte}

/-- Replacing a byte takes its value from the sum and adds that of the new one. -/
theorem sum_set {i : Nat} (hi : i < payload.length) (c : Byte) :
    ((payload.set i c).map (·.toNat)).sum + payload[i].toNat =
      (payload.map (·.toNat)).sum + c.toNat := by
  induction payload generalizing i with
  | nil => exact absurd hi (Nat.not_lt_zero i)
  | cons b payload ih =>
      cases i with
      | zero =>
          simp only [List.set_cons_zero, List.map_cons, List.sum_cons, List.getElem_cons_zero]
          omega
      | succ i =>
          have hrest := ih (Nat.lt_of_succ_lt_succ hi)
          simp only [List.set_cons_succ, List.map_cons, List.sum_cons, List.getElem_cons_succ]
          omega

/-- **The checksum tells one altered byte**, wherever it is. -/
theorem checksum_set_eq_iff {i : Nat} (hi : i < payload.length) (c : Byte) :
    checksum (payload.set i c) = checksum payload ↔ c = payload[i] := by
  constructor
  · intro hsame
    have hsum := sum_set hi c
    have hremainder : ((payload.set i c).map (·.toNat)).sum % 256 =
        (payload.map (·.toNat)).sum % 256 := by
      rw [← toNat_checksum, ← toNat_checksum, hsame]
    have hold := payload[i].isLt
    have hnew := c.isLt
    apply BitVec.eq_of_toNat_eq
    omega
  · rintro rfl
    rw [List.set_getElem_self]

/-- Digits of a sum are no digits of another. -/
theorem not_valid_of_checksum {other : List Byte} {c₁ c₂ : Byte} (h : Valid payload c₁ c₂)
    (hne : checksum other ≠ checksum payload) : ¬Valid other c₁ c₂ := by
  intro hother
  have hdigits := ((valid_iff payload c₁ c₂).mp h).2
  have hdigits' := ((valid_iff other c₁ c₂).mp hother).2
  exact hne (Option.some.inj (hdigits'.symm.trans hdigits))

/-- The digits of a packet that is valid spell the halves of the sum. -/
theorem Valid.spells {c₁ c₂ : Byte} (h : Valid payload c₁ c₂) :
    Hex.Spells c₁ ((checksum payload).toNat / 16) ∧
      Hex.Spells c₂ ((checksum payload).toNat % 16) := by
  obtain ⟨high, low, hhigh, hlow, hsum⟩ := h.sum
  have hlt := hlow.1
  rw [← toNat_checksum] at hsum
  rw [← hsum, Nat.mul_add_div (by decide), Nat.div_eq_of_lt hlt, Nat.add_zero, Nat.mul_add_mod,
    Nat.mod_eq_of_lt hlt]
  exact ⟨hhigh, hlow⟩

theorem frame_set_byte {i : Nat} (hi : i < payload.length) (c : Byte) :
    (frame payload).set (i + 1) c = opening :: payload.set i c ++
      [closing, Hex.upperDigit ((checksum payload).toNat / 16),
        Hex.upperDigit ((checksum payload).toNat % 16)] := by
  unfold frame
  rw [List.cons_append, List.set_cons_succ, List.set_append_left _ _ hi]
  rfl

/-- Past the payload, what stands behind it is altered. -/
theorem frame_set_end (payload : List Byte) (k : Nat) (c : Byte) :
    (frame payload).set (payload.length + k + 1) c = opening :: payload ++
      [closing, Hex.upperDigit ((checksum payload).toNat / 16),
        Hex.upperDigit ((checksum payload).toNat % 16)].set k c := by
  unfold frame
  rw [List.cons_append, List.set_cons_succ, List.set_append_right _ _ (Nat.le_add_right _ _),
    Nat.add_sub_cancel_left]
  rfl

/-- An altered packet is a packet still, but no valid one. -/
theorem Altered.exists_invalid {bytes : List Byte} (ha : Altered payload bytes)
    (hs : Sayable payload) :
    ∃ p c₁ c₂, bytes = opening :: p ++ [closing, c₁, c₂] ∧ opening ∉ p ∧ closing ∉ p ∧
      ¬Valid p c₁ c₂ := by
  cases ha with
  | @byte i c hi hne hopening hclosing =>
      have hnew : checksum (payload.set i c) ≠ checksum payload :=
        mt (checksum_set_eq_iff hi c).mp hne
      have hkeeps {b : Byte} (hb : b ∉ payload) (hc : c ≠ b) : b ∉ payload.set i c := by
        intro hmem
        rcases List.mem_or_eq_of_mem_set hmem with hold | hnew
        · exact hb hold
        · exact hc hnew.symm
      exact ⟨_, _, _, frame_set_byte hi c, hkeeps hs.opening hopening, hkeeps hs.closing hclosing,
        not_valid_of_checksum (valid_frame hs.length) hnew⟩
  | @highDigit c hne =>
      exact ⟨_, _, _, frame_set_end payload 1 c, hs.opening, hs.closing,
        fun hvalid => hne hvalid.spells.1⟩
  | @lowDigit c hne =>
      exact ⟨_, _, _, frame_set_end payload 2 c, hs.opening, hs.closing,
        fun hvalid => hne hvalid.spells.2⟩

/-- A reader outside a packet tells of a corrupt one and is outside again. -/
theorem Altered.feedAll {bytes : List Byte} (ha : Altered payload bytes) (hs : Sayable payload) :
    Reader.outside.feedAll bytes = ([.corrupt], .outside) := by
  obtain ⟨p, c₁, c₂, rfl, hopening, hclosing, hinvalid⟩ := ha.exists_invalid hs
  rw [Reader.feedAll_packet (.inl rfl) hopening hclosing, Payload.finish_of_invalid hinvalid]
  rfl

end

/-! ### Readers that refuse -/

namespace Reader

/-- Whatever the bytes complete is corrupt. -/
def Refuses (r : Reader) (bytes : List Byte) : Prop := ∀ e ∈ (r.feedAll bytes).1, e = .corrupt

/-- What is said to that. -/
def refusals (r : Reader) (bytes : List Byte) : List Byte :=
  (r.feedAll bytes).1.flatMap fun _ => Text.ascii "-"

theorem refuses_append (r : Reader) (bytes more : List Byte) :
    r.Refuses (bytes ++ more) ↔ r.Refuses bytes ∧ (r.feedAll bytes).2.Refuses more := by
  unfold Refuses
  rw [feedAll_append, List.forall_mem_append]

theorem refusals_append (r : Reader) (bytes more : List Byte) :
    r.refusals (bytes ++ more) = r.refusals bytes ++ (r.feedAll bytes).2.refusals more := by
  unfold refusals
  rw [feedAll_append, List.flatMap_append]

end Reader

end Packet

namespace Server

open Packet (Reader)

section
variable {δ : Type} [DeviceAccess δ] [RegisterCodec]

/-- Refusing takes nothing but the answers. -/
theorem consume_of_refuses (s : Server δ) {r : Reader} {bytes : List Byte}
    (hr : r.Refuses bytes) :
    s.consume r bytes = (true, (r.feedAll bytes).2, s.send (r.refusals bytes)) := by
  induction bytes generalizing s r with
  | nil =>
      show (true, r, s) = (true, r, s.send [])
      unfold send
      rw [List.append_nil]
  | cons b bytes ih =>
      cases hfeed : r.feed b with
      | mk event next =>
          cases event with
          | none =>
              have hfeedAll := Reader.feedAll_of_none hfeed bytes
              unfold Reader.Refuses at hr
              unfold Reader.refusals
              rw [hfeedAll] at hr ⊢
              rw [consume_of_none hfeed, ih s hr]
              rfl
          | some event =>
              have hfeedAll := Reader.feedAll_of_some hfeed bytes
              unfold Reader.Refuses at hr
              rw [hfeedAll, List.forall_mem_cons] at hr
              obtain ⟨rfl, hrest⟩ := hr
              unfold Reader.refusals
              rw [hfeedAll, consume_of_some hfeed]
              show (s.send (Text.ascii "-")).consume next bytes = _
              rw [ih _ hrest]
              unfold send Reader.refusals
              rw [List.flatMap_cons, List.append_assoc]

/-! ### Polls -/

section

omit [DeviceAccess δ] [RegisterCodec]

/-- The server with its session in this state. -/
def inSession (s : Server δ) (c : Session) : Server δ := { s with session := some c }

theorem hasIncoming_inSession_iff (s : Server δ) (c : Session) :
    (s.inSession c).hasIncoming = true ↔ c.incoming ≠ [] := by
  show (!c.incoming.isEmpty) = true ↔ _
  simp

/-- The server after it has refused what there was to read. -/
def refused (s : Server δ) (r : Reader) (bytes : List Byte) : Server δ :=
  (s.send (r.refusals bytes)).inSession { reader := (r.feedAll bytes).2 }

theorem refused_nil {s : Server δ} {r : Reader} (hs : s.session = some { reader := r }) :
    s.refused r [] = s :=
  eq_of_parts rfl hs.symm (List.append_nil _)

/-- Where everything is read, nothing is refused. -/
theorem refused_of_read (s : Server δ) {c : Session} (hc : c.incoming = []) :
    s.refused c.reader c.incoming = s.inSession c := by
  obtain ⟨reader, incoming⟩ := c
  obtain rfl : incoming = [] := hc
  exact refused_nil (s := s.inSession { reader }) rfl

/-- Refusing in two stretches is refusing in one. -/
theorem refused_append (s : Server δ) (r : Reader) (bytes more : List Byte) :
    (s.refused r bytes).refused (r.feedAll bytes).2 more = s.refused r (bytes ++ more) := by
  unfold refused inSession send
  rw [Reader.refusals_append, Reader.feedAll_append, List.append_assoc]

/-- No notice waits for the client. -/
def Quiet (s : Server δ) : Prop :=
  s.machine.control.notices.filter (·.listener == .debugger) = []

theorem quiet_flush (s : Server δ) : s.flush.2.Quiet := filter_othersOf s.machine.control.notices

theorem quiet_of_flush {s : Server δ} (h : s.flush.1 = false) : s.Quiet := by
  have hempty : (!(s.machine.control.notices.filter (·.listener == .debugger)).isEmpty) = false := h
  rw [Bool.not_eq_false', List.isEmpty_iff] at hempty
  exact hempty

theorem Quiet.flush {s : Server δ} (hs : s.Quiet) : s.flush = (false, s) := flush_of_none hs

theorem Quiet.refused {s : Server δ} (hs : s.Quiet) (r : Reader) (bytes : List Byte) :
    (s.refused r bytes).Quiet := hs

theorem Quiet.inSession {s : Server δ} (hs : s.Quiet) (c : Session) : (s.inSession c).Quiet := hs

end

section

variable {s : Server δ} {c : Session} {r : Reader}

/-- A poll with nothing to tell reads as much as it may, and refuses that. -/
theorem poll_of_refuses (hquiet : s.Quiet) (hc : c.incoming ≠ [])
    (hr : c.reader.Refuses (c.incoming.take pollSize)) :
    (s.inSession c).poll = (s.refused c.reader (c.incoming.take pollSize)).inSession {
      reader := (c.reader.feedAll (c.incoming.take pollSize)).2
      incoming := c.incoming.drop pollSize } := by
  rw [poll_eq rfl hc, (hquiet.inSession c).flush, if_neg Bool.false_ne_true]
  unfold readSome
  rw [consume_of_refuses _ hr]
  exact congrArg Prod.snd ((hquiet.refused c.reader (c.incoming.take pollSize)).inSession _).flush

/-- The induction is on the polls, each of which reads a byte at least. -/
theorem pollAll_of_refuses (hquiet : s.Quiet) (hr : c.reader.Refuses c.incoming) {polls : Nat}
    (hpolls : c.incoming.length ≤ polls) :
    (s.inSession c).pollAll polls = s.refused c.reader c.incoming := by
  induction polls generalizing s c with
  | zero =>
      have hc : c.incoming = [] := List.eq_nil_of_length_eq_zero (Nat.le_zero.mp hpolls)
      exact (s.refused_of_read hc).symm
  | succ polls ih =>
      by_cases hc : c.incoming = []
      · have hidle : (s.inSession c).hasIncoming = false := by
          rw [Bool.eq_false_iff, ne_eq, hasIncoming_inSession_iff, not_not]
          exact hc
        rw [pollAll_of_idle hidle, s.refused_of_read hc]
      · have hsplit := List.take_append_drop pollSize c.incoming
        have hboth := hr
        rw [← hsplit, Reader.refuses_append] at hboth
        have hlength : (c.incoming.drop pollSize).length ≤ polls := by
          have hpos : 0 < c.incoming.length := List.length_pos_of_ne_nil hc
          have hsize : 0 < pollSize := by decide
          rw [List.length_drop]
          omega
        have hrest := ih (c := ⟨(c.reader.feedAll (c.incoming.take pollSize)).2,
          c.incoming.drop pollSize⟩) (hquiet.refused c.reader (c.incoming.take pollSize)) hboth.2
          hlength
        rw [pollAll_of_hasIncoming ((hasIncoming_inSession_iff s c).mpr hc),
          poll_of_refuses hquiet hc hboth.1, hrest, refused_append, hsplit]

/-- What arrives is refused, after what waited was sent. -/
theorem serve_of_refuses (hs : s.session = some { reader := r }) {data : List Byte}
    (hdata : data ≠ []) (hr : r.Refuses data) : s.serve data = s.flush.2.refused r data := by
  have hreceive : s.receive data = s.inSession { reader := r, incoming := data } := by
    unfold receive
    rw [hs]
    rfl
  have hserve : s.serve data =
      (s.inSession { reader := r, incoming := data }).pollAll (data.length + 1) := by
    unfold serve
    rw [hreceive]
    rfl
  rw [hserve]
  by_cases hwaits : s.flush.1 = true
  · have hpoll : (s.inSession { reader := r, incoming := data }).poll =
        s.flush.2.inSession { reader := r, incoming := data } := by
      rw [poll_eq rfl hdata]
      exact if_pos hwaits
    rw [pollAll_of_hasIncoming ((hasIncoming_inSession_iff s _).mpr hdata), hpoll]
    exact pollAll_of_refuses (c := ⟨r, data⟩) (quiet_flush s) hr (Nat.le_refl _)
  · have hquiet : s.Quiet := quiet_of_flush (Bool.eq_false_of_not_eq_true hwaits)
    rw [hquiet.flush]
    exact pollAll_of_refuses (c := ⟨r, data⟩) hquiet hr (Nat.le_succ _)

/-! ### Pieces -/

/-- So are pieces of it, one after another. -/
theorem foldl_serve_of_quiet {chunks : List (List Byte)} (hquiet : s.Quiet)
    (hs : s.session = some { reader := r }) (hr : r.Refuses chunks.flatten) :
    chunks.foldl serve s = s.refused r chunks.flatten := by
  induction chunks generalizing s r with
  | nil => exact (refused_nil hs).symm
  | cons data chunks ih =>
      rw [List.flatten_cons, Reader.refuses_append] at hr
      have hserve : s.serve data = s.refused r data := by
        by_cases hdata : data = []
        · rw [hdata, serve_nil (hasIncoming_of_read hs), refused_nil hs]
        · rw [serve_of_refuses hs hdata hr.1, hquiet.flush]
      have hrest := ih (hquiet.refused r data) rfl hr.2
      rw [List.foldl_cons, hserve, hrest, refused_append, List.flatten_cons]

/-- What waits is sent with the first piece that is not empty. -/
theorem foldl_serve_of_refuses {chunks : List (List Byte)}
    (hs : s.session = some { reader := r }) (hchunks : chunks.flatten ≠ [])
    (hr : r.Refuses chunks.flatten) :
    chunks.foldl serve s = s.flush.2.refused r chunks.flatten := by
  induction chunks with
  | nil => exact absurd rfl hchunks
  | cons data chunks ih =>
      by_cases hdata : data = []
      · subst hdata
        rw [List.flatten_cons, List.nil_append] at hchunks hr ⊢
        rw [List.foldl_cons, serve_nil (hasIncoming_of_read hs)]
        exact ih hchunks hr
      · rw [List.flatten_cons, Reader.refuses_append] at hr
        have hrest := foldl_serve_of_quiet ((quiet_flush s).refused r data) rfl hr.2
        rw [List.foldl_cons, serve_of_refuses hs hdata hr.1, hrest, refused_append,
          List.flatten_cons]

end

/-- **A packet with one byte altered is refused and changes nothing.**  A reader outside a packet
tells of one corrupt packet, and the packet after it is read as what it is.  The server answers
with `-` and goes on with everything else as it was, in whatever pieces the bytes arrive. -/
theorem altered_packets_refused {payload bytes : List Byte} (hsayable : Packet.Sayable payload)
    (ha : Packet.Altered payload bytes) :
    Reader.outside.feedAll bytes = ([.corrupt], .outside) ∧
    (∀ next, Packet.Sayable next → Reader.outside.feedAll (bytes ++ Packet.frame next) =
      ([.corrupt, .packet next], .outside)) ∧
    (∀ s : Server δ, s.consume .outside bytes = (true, .outside, s.send (Text.ascii "-"))) ∧
    ∀ (s : Server δ) (chunks : List (List Byte)), s.session = some { reader := .outside } →
      chunks.flatten = bytes →
        chunks.foldl serve s = s.flush.2.send (Text.ascii "-") ∧
        (s.flush.1 = false → chunks.foldl serve s = s.send (Text.ascii "-")) := by
  have hread := ha.feedAll hsayable
  have hrefuses : Reader.outside.Refuses bytes := by
    intro e he
    rw [hread] at he
    exact List.mem_singleton.mp he
  have hrefusals : Reader.outside.refusals bytes = Text.ascii "-" := by
    unfold Reader.refusals
    rw [hread]
    rfl
  refine ⟨hread, ?_, ?_, ?_⟩
  · intro next hnext
    rw [Reader.feedAll_append, hread,
      Packet.feedAll_frame (.inl rfl) hnext.opening hnext.closing hnext.length]
    rfl
  · intro s
    rw [consume_of_refuses s hrefuses, hread, hrefusals]
  · rintro s chunks hs rfl
    have hsome : chunks.flatten ≠ [] := by
      intro hnil
      rw [hnil] at hread
      cases hread
    have hserved : chunks.foldl serve s = s.flush.2.send (Text.ascii "-") := by
      rw [foldl_serve_of_refuses hs hsome hrefuses]
      refine eq_of_parts rfl ?_ ?_
      · show some _ = s.session
        rw [hread, hs]
      · show _ ++ _ = _
        rw [hrefusals]
        rfl
    refine ⟨hserved, ?_⟩
    intro hwaits
    rw [hserved, (quiet_of_flush hwaits).flush]

end

/-- The byte that stops a running computer when it stands outside a packet does not inside: in
place of the command of `$s#73` it is one corrupt byte, wherever the connection cuts the packet. -/
theorem altered_packets_refused_interrupt :
    let connected := ({ machine := Machine.fresh {} ({} : Devices) } : Server Devices).connect
    let s := { connected with machine := connected.machine.go }
    let pieces := [Text.ascii "$", [Packet.interrupt] ++ Text.ascii "#7", Text.ascii "3"]
    Reader.outside.feedAll pieces.flatten = ([.corrupt], .outside) ∧
      pieces.foldl serve s = s.send (Text.ascii "-") := by
  intro connected s pieces
  have hsayable : Packet.Sayable (Text.ascii "s") := by decide
  have haltered : Packet.Altered (Text.ascii "s")
      ((Packet.frame (Text.ascii "s")).set (0 + 1) Packet.interrupt) :=
    .byte (by decide) (by decide) (by decide) (by decide)
  have hpieces : pieces.flatten = (Packet.frame (Text.ascii "s")).set (0 + 1) Packet.interrupt := by
    decide
  rw [← hpieces] at haltered
  obtain ⟨hread, -, -, hserved⟩ := altered_packets_refused (δ := Devices) hsayable haltered
  exact ⟨hread, (hserved s pieces rfl rfl).2 rfl⟩

end Server

end HomeComputer

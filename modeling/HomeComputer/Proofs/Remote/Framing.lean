/-
What a stream of packets means.

`Stream` gives a stream of bytes its events with no reader going through it: each rule takes
something off the front, a stray byte or a whole packet, and the rest is a stream again.  No
rule remembers anything of what was taken off before.

The reader agrees with it because of what it keeps.  Inside a packet that is all there is to
know of the bytes since the last `$`, and `Payload.of` computes it from those bytes alone, so
one step lemma says what a byte adds.  From there the two are compared packet by packet.
-/
import HomeComputer.Remote.Packet
import HomeComputer.Text
import Mathlib.Algebra.Ring.Nat

namespace HomeComputer

/-! ### Digits -/

namespace Hex

/-- A digit, in either case, with its value. -/
def Spells (c : Byte) (v : Nat) : Prop := v < 16 ∧ (c = lowerDigit v ∨ c = upperDigit v)

theorem digit?_lowerDigit : ∀ v < 16, digit? (lowerDigit v) = some v := by decide

theorem digit?_upperDigit : ∀ v < 16, digit? (upperDigit v) = some v := by decide

theorem spells_of_digit? {c : Byte} {v : Nat} (h : digit? c = some v) : Spells c v := by
  unfold digit? at h
  unfold Spells lowerDigit upperDigit
  have hc : c = BitVec.ofNat 8 c.toNat := by simp
  dsimp only at h
  split at h
  · obtain rfl := Option.some.inj h
    refine ⟨by omega, .inl ?_⟩
    rw [if_pos (by omega), Nat.add_sub_cancel' (by omega)]
    exact hc
  · split at h
    · obtain rfl := Option.some.inj h
      refine ⟨by omega, .inr ?_⟩
      rw [if_neg (by omega), Nat.add_sub_cancel, Nat.add_sub_cancel' (by omega)]
      exact hc
    · split at h
      · obtain rfl := Option.some.inj h
        refine ⟨by omega, .inl ?_⟩
        rw [if_neg (by omega), Nat.add_sub_cancel, Nat.add_sub_cancel' (by omega)]
        exact hc
      · cases h

theorem digit?_eq_some_iff {c : Byte} {v : Nat} : digit? c = some v ↔ Spells c v := by
  refine ⟨spells_of_digit?, ?_⟩
  rintro ⟨hv, rfl | rfl⟩
  · exact digit?_lowerDigit v hv
  · exact digit?_upperDigit v hv

/-- Two digits are read as the number that they spell. -/
theorem pair?_eq_some_iff {high low b : Byte} :
    pair? high low = some b ↔
      ∃ h l, Spells high h ∧ Spells low l ∧ 16 * h + l = b.toNat := by
  unfold pair?
  constructor
  · intro hpair
    simp only [Option.bind_eq_bind, Option.bind_eq_some_iff] at hpair
    obtain ⟨h, hhigh, l, hlow, hsum⟩ := hpair
    obtain rfl := Option.some.inj hsum
    have hh := digit?_eq_some_iff.mp hhigh
    have hl := digit?_eq_some_iff.mp hlow
    refine ⟨h, l, hh, hl, ?_⟩
    have hhlt := hh.1
    have hllt := hl.1
    rw [BitVec.toNat_ofNat]
    omega
  · rintro ⟨h, l, hhigh, hlow, hsum⟩
    rw [digit?_eq_some_iff.mpr hhigh, digit?_eq_some_iff.mpr hlow]
    show some (BitVec.ofNat 8 (h * 16 + l)) = some b
    rw [Nat.mul_comm, hsum, BitVec.ofNat_toNat, BitVec.setWidth_eq]

end Hex

namespace Packet

/-! ### The grammar -/

/-- A payload that is not too long, followed by the digits of its sum. -/
structure Valid (payload : List Byte) (c₁ c₂ : Byte) : Prop where
  length : payload.length ≤ 4096
  sum : ∃ high low, Hex.Spells c₁ high ∧ Hex.Spells c₂ low ∧
    16 * high + low = (payload.map (·.toNat)).sum % 256

/-- The events of a stream of bytes. -/
inductive Stream : List Byte → List Event → Prop
  | done : Stream [] []
  | stray {b : Byte} {rest : List Byte} {events : List Event} (hopening : b ≠ opening)
      (hinterrupt : b ≠ Packet.interrupt) (hrest : Stream rest events) : Stream (b :: rest) events
  | interrupt {rest : List Byte} {events : List Event} (hrest : Stream rest events) :
      Stream (Packet.interrupt :: rest) (.interrupt :: events)
  /-- What a packet has begun with is lost once it begins anew. -/
  | anew {lost rest : List Byte} {events : List Event} (hlost : closing ∉ lost)
      (hrest : Stream (opening :: rest) events) :
      Stream (opening :: lost ++ opening :: rest) events
  | packet {payload : List Byte} {c₁ c₂ : Byte} {rest : List Byte} {events : List Event}
      (hopening : opening ∉ payload) (hclosing : closing ∉ payload)
      (hvalid : Valid payload c₁ c₂) (hrest : Stream rest events) :
      Stream (opening :: payload ++ closing :: c₁ :: c₂ :: rest) (.packet payload :: events)
  | corrupt {payload : List Byte} {c₁ c₂ : Byte} {rest : List Byte} {events : List Event}
      (hopening : opening ∉ payload) (hclosing : closing ∉ payload)
      (hinvalid : ¬Valid payload c₁ c₂) (hrest : Stream rest events) :
      Stream (opening :: payload ++ closing :: c₁ :: c₂ :: rest) (.corrupt :: events)
  /-- A packet of which the end has not come. -/
  | unfinished {payload : List Byte} (hclosing : closing ∉ payload) :
      Stream (opening :: payload) []
  /-- A packet of which the digits have not come, or only one. -/
  | unchecked {payload digits : List Byte} (hclosing : closing ∉ payload)
      (hdigits : digits.length < 2) : Stream (opening :: payload ++ closing :: digits) []

/-! ### The payload of a packet -/

theorem toNat_checksum (payload : List Byte) :
    (checksum payload).toNat = (payload.map (·.toNat)).sum % 256 := by
  have hfold (a : Byte) : (payload.foldl (· + ·) a).toNat =
      (a.toNat + (payload.map (·.toNat)).sum) % 256 := by
    induction payload generalizing a with
    | nil =>
        have ha := a.isLt
        rw [List.foldl_nil, List.map_nil, List.sum_nil]
        omega
    | cons b payload ih =>
        rw [List.foldl_cons, ih, BitVec.toNat_add, List.map_cons, List.sum_cons]
        omega
  have hzero := hfold 0#8
  rwa [BitVec.toNat_zero, Nat.zero_add] at hzero

theorem valid_iff (payload : List Byte) (c₁ c₂ : Byte) :
    Valid payload c₁ c₂ ↔
      payload.length ≤ maxPayload ∧ Hex.pair? c₁ c₂ = some (checksum payload) := by
  rw [Hex.pair?_eq_some_iff, toNat_checksum]
  exact ⟨fun h => ⟨h.length, h.sum⟩, fun h => ⟨h.1, h.2⟩⟩

namespace Payload

/-- What a reader keeps of the bytes of a payload. -/
def of (payload : List Byte) : Payload where
  bytes := (payload.take maxPayload).toArray
  overflow := decide (maxPayload < payload.length)

/-- One byte takes what is kept of some bytes to what is kept of those with it. -/
theorem push_of (payload : List Byte) (b : Byte) : (of payload).push b = of (payload ++ [b]) := by
  have hsize : (of payload).bytes.size = min maxPayload payload.length := by
    show (payload.take maxPayload).toArray.size = min maxPayload payload.length
    rw [List.size_toArray, List.length_take]
  have hlength : (payload ++ [b]).length = payload.length + 1 := by
    rw [List.length_append, List.length_singleton]
  unfold push
  by_cases hfull : maxPayload ≤ payload.length
  · have hover : maxPayload < (payload ++ [b]).length := by omega
    rw [if_pos (by omega)]
    unfold of
    rw [List.take_append_of_le_length hfull, decide_eq_true hover]
  · have hunder : ¬maxPayload < payload.length := by omega
    have hall : (payload ++ [b]).length ≤ maxPayload := by omega
    rw [if_neg (by omega)]
    unfold of
    rw [List.take_of_length_le hall, List.take_of_length_le (by omega),
      decide_eq_false (Nat.not_lt.mpr hall), decide_eq_false hunder, List.push_toArray]

theorem finish_of_valid {payload : List Byte} {c₁ c₂ : Byte} (hvalid : Valid payload c₁ c₂) :
    (of payload).finish (Hex.pair? c₁ c₂) = .packet payload := by
  obtain ⟨hlength, hsum⟩ := (valid_iff payload c₁ c₂).mp hvalid
  have htake : payload.take maxPayload = payload := List.take_of_length_le hlength
  unfold finish of
  rw [if_neg (by simpa using hlength), htake, if_pos hsum]

theorem finish_of_invalid {payload : List Byte} {c₁ c₂ : Byte}
    (hinvalid : ¬Valid payload c₁ c₂) :
    (of payload).finish (Hex.pair? c₁ c₂) = .corrupt := by
  rw [valid_iff, not_and] at hinvalid
  unfold finish of
  by_cases hlength : payload.length ≤ maxPayload
  · have htake : payload.take maxPayload = payload := List.take_of_length_le hlength
    rw [if_neg (by simpa using hlength), htake, if_neg (hinvalid hlength)]
  · rw [if_pos (by simpa using hlength)]

end Payload

/-! ### What a reader does with a packet -/

namespace Reader

theorem feedAll_of_none {r next : Reader} {b : Byte} (hfeed : r.feed b = (none, next))
    (rest : List Byte) : r.feedAll (b :: rest) = next.feedAll rest := by
  rw [feedAll, hfeed]
  rfl

theorem feedAll_of_some {r next : Reader} {b : Byte} {event : Event}
    (hfeed : r.feed b = (some event, next)) (rest : List Byte) :
    r.feedAll (b :: rest) = (event :: (next.feedAll rest).1, (next.feedAll rest).2) := by
  rw [feedAll, hfeed]
  rfl

theorem feed_opening {r : Reader} (hr : r = .outside ∨ ∃ p, r = .inside p) :
    r.feed opening = (none, .inside (.of [])) := by
  rcases hr with rfl | ⟨p, rfl⟩
  · rfl
  · rfl

theorem feed_inside {b : Byte} (hclosing : b ≠ closing) (hopening : b ≠ opening)
    (payload : List Byte) :
    (inside (.of payload)).feed b = (none, .inside (.of (payload ++ [b]))) := by
  simp only [feed, if_neg hclosing, if_neg hopening, Payload.push_of]

/-- Bytes of a payload are kept. -/
theorem feedAll_payload {more : List Byte} (hopening : opening ∉ more) (hclosing : closing ∉ more)
    (payload rest : List Byte) :
    (inside (.of payload)).feedAll (more ++ rest) =
      (inside (.of (payload ++ more))).feedAll rest := by
  induction more generalizing payload with
  | nil => rw [List.nil_append, List.append_nil]
  | cons b more ih =>
      rw [List.mem_cons, not_or] at hopening hclosing
      have hfeed := feed_inside (Ne.symm hclosing.1) (Ne.symm hopening.1) payload
      rw [List.cons_append, feedAll_of_none hfeed, ih hopening.2 hclosing.2, List.append_assoc]
      rfl

/-- As long as no packet ends the reader stays inside and has nothing to tell. -/
theorem feedAll_inside {lost : List Byte} (hclosing : closing ∉ lost) (p : Payload) :
    ∃ q, ∀ rest, (inside p).feedAll (lost ++ rest) = (inside q).feedAll rest := by
  induction lost generalizing p with
  | nil => exact ⟨p, fun _ => rfl⟩
  | cons b lost ih =>
      rw [List.mem_cons, not_or] at hclosing
      have hnext : ∃ q, (inside p).feed b = (none, inside q) := by
        simp only [feed, if_neg (Ne.symm hclosing.1)]
        by_cases hopening : b = opening
        · exact ⟨_, if_pos hopening⟩
        · exact ⟨_, if_neg hopening⟩
      obtain ⟨next, hfeed⟩ := hnext
      obtain ⟨q, hq⟩ := ih hclosing.2 next
      refine ⟨q, fun rest => ?_⟩
      rw [List.cons_append, feedAll_of_none hfeed, hq]

/-- The end of a packet and its two digits complete it. -/
theorem feedAll_closing (p : Payload) (c₁ c₂ : Byte) (rest : List Byte) :
    (inside p).feedAll (closing :: c₁ :: c₂ :: rest) =
      (p.finish (Hex.pair? c₁ c₂) :: (outside.feedAll rest).1, (outside.feedAll rest).2) := by
  have hclosing : (inside p).feed closing = (none, beforeSum p) := rfl
  have hfirst : (beforeSum p).feed c₁ = (none, insideSum p (Hex.digit? c₁)) := rfl
  have hsecond : (insideSum p (Hex.digit? c₁)).feed c₂ =
      (some (p.finish (Hex.pair? c₁ c₂)), outside) := rfl
  rw [feedAll_of_none hclosing, feedAll_of_none hfirst, feedAll_of_some hsecond]

/-- A packet from its `$` to its last digit. -/
theorem feedAll_packet {r : Reader} (hr : r = .outside ∨ ∃ p, r = .inside p)
    {payload : List Byte} (hopening : opening ∉ payload) (hclosing : closing ∉ payload)
    (c₁ c₂ : Byte) (rest : List Byte) :
    r.feedAll (opening :: payload ++ closing :: c₁ :: c₂ :: rest) =
      ((Payload.of payload).finish (Hex.pair? c₁ c₂) :: (outside.feedAll rest).1,
        (outside.feedAll rest).2) := by
  rw [List.cons_append, feedAll_of_none (feed_opening hr), feedAll_payload hopening hclosing,
    List.nil_append, feedAll_closing]

end Reader

/-! ### The reader and the grammar -/

/-- How a packet goes on after its `$`. -/
theorem packet_cases (s : List Byte) :
    closing ∉ s ∨
    (∃ lost rest, closing ∉ lost ∧ s = lost ++ opening :: rest) ∨
    (∃ payload digits, opening ∉ payload ∧ closing ∉ payload ∧ digits.length < 2 ∧
      s = payload ++ closing :: digits) ∨
    ∃ payload c₁ c₂ rest, opening ∉ payload ∧ closing ∉ payload ∧
      s = payload ++ closing :: c₁ :: c₂ :: rest := by
  by_cases hend : closing ∈ s
  · obtain ⟨payload, digits, rfl, hclosing⟩ := List.eq_append_cons_of_mem hend
    by_cases hagain : opening ∈ payload
    · obtain ⟨lost, rest, rfl, -⟩ := List.eq_append_cons_of_mem hagain
      have hlost : closing ∉ lost := fun h => hclosing (List.mem_append_left _ h)
      exact .inr (.inl ⟨lost, rest ++ closing :: digits, hlost, by simp⟩)
    · match digits with
      | [] => exact .inr (.inr (.inl ⟨payload, [], hagain, hclosing, by simp, rfl⟩))
      | [c] => exact .inr (.inr (.inl ⟨payload, [c], hagain, hclosing, by simp, rfl⟩))
      | c₁ :: c₂ :: rest =>
          exact .inr (.inr (.inr ⟨payload, c₁, c₂, rest, hagain, hclosing, rfl⟩))
  · exact .inl hend

/-- Every stream has events. -/
theorem Stream.exists_events (s : List Byte) : ∃ events, Stream s events := by
  induction hn : s.length using Nat.strongRecOn generalizing s with
  | ind n ih =>
      subst hn
      match s with
      | [] => exact ⟨[], .done⟩
      | b :: s =>
          by_cases hopening : b = opening
          · rw [hopening]
            rcases packet_cases s with hclosing | ⟨lost, rest, hlost, rfl⟩ |
              ⟨payload, digits, -, hclosing, hdigits, rfl⟩ |
              ⟨payload, c₁, c₂, rest, hagain, hclosing, rfl⟩
            · exact ⟨[], .unfinished hclosing⟩
            · have hlt : (opening :: rest).length <
                  (opening :: (lost ++ opening :: rest)).length := by
                rw [List.length_cons, List.length_cons, List.length_append, List.length_cons]
                omega
              obtain ⟨events, hevents⟩ := ih _ hlt (opening :: rest) rfl
              exact ⟨events, .anew hlost hevents⟩
            · exact ⟨[], .unchecked hclosing hdigits⟩
            · have hlt : rest.length <
                  (opening :: (payload ++ closing :: c₁ :: c₂ :: rest)).length := by
                rw [List.length_cons, List.length_append, List.length_cons, List.length_cons,
                  List.length_cons]
                omega
              obtain ⟨events, hevents⟩ := ih _ hlt rest rfl
              by_cases hvalid : Valid payload c₁ c₂
              · exact ⟨_, .packet hagain hclosing hvalid hevents⟩
              · exact ⟨_, .corrupt hagain hclosing hvalid hevents⟩
          · obtain ⟨events, hevents⟩ := ih _ (Nat.lt_succ_self s.length) s rfl
            by_cases hinterrupt : b = Packet.interrupt
            · rw [hinterrupt]
              exact ⟨_, .interrupt hevents⟩
            · exact ⟨_, .stray hopening hinterrupt hevents⟩

/-- A reader tells of the events of a stream. -/
theorem Stream.feedAll {s : List Byte} {events : List Event} (h : Stream s events) :
    (Reader.outside.feedAll s).1 = events := by
  induction h with
  | done => rfl
  | @stray b rest events hopening hinterrupt hrest ih =>
      have hfeed : Reader.outside.feed b = (none, .outside) := by
        simp only [Reader.feed, if_neg hopening, if_neg hinterrupt]
      rw [Reader.feedAll_of_none hfeed, ih]
  | @interrupt rest events hrest ih =>
      have hfeed : Reader.outside.feed Packet.interrupt = (some .interrupt, .outside) := rfl
      rw [Reader.feedAll_of_some hfeed, ih]
  | @anew lost rest events hlost hrest ih =>
      obtain ⟨q, hq⟩ := Reader.feedAll_inside hlost (.of [])
      rw [Reader.feedAll_of_none (Reader.feed_opening (.inl rfl))] at ih
      rw [List.cons_append, Reader.feedAll_of_none (Reader.feed_opening (.inl rfl)), hq,
        Reader.feedAll_of_none (Reader.feed_opening (.inr ⟨q, rfl⟩)), ih]
  | packet hopening hclosing hvalid hrest ih =>
      rw [Reader.feedAll_packet (.inl rfl) hopening hclosing, Payload.finish_of_valid hvalid, ih]
  | corrupt hopening hclosing hinvalid hrest ih =>
      rw [Reader.feedAll_packet (.inl rfl) hopening hclosing,
        Payload.finish_of_invalid hinvalid, ih]
  | @unfinished payload hclosing =>
      obtain ⟨q, hq⟩ := Reader.feedAll_inside hclosing (.of [])
      have hend := hq []
      rw [List.append_nil] at hend
      rw [Reader.feedAll_of_none (Reader.feed_opening (.inl rfl)), hend]
      rfl
  | @unchecked payload digits hclosing hdigits =>
      obtain ⟨q, hq⟩ := Reader.feedAll_inside hclosing (.of [])
      rw [List.cons_append, Reader.feedAll_of_none (Reader.feed_opening (.inl rfl)), hq]
      match digits with
      | [] => rfl
      | [c] => rfl
      | c₁ :: c₂ :: rest => exact absurd hdigits (by simp)

theorem Stream.iff_feedAll (s : List Byte) (events : List Event) :
    Stream s events ↔ (Reader.outside.feedAll s).1 = events := by
  refine ⟨Stream.feedAll, ?_⟩
  rintro rfl
  obtain ⟨events, hevents⟩ := Stream.exists_events s
  rw [hevents.feedAll]
  exact hevents

/-! ### What is kept -/

theorem Payload.size_push {p : Payload} (hp : p.bytes.size ≤ maxPayload) (b : Byte) :
    (p.push b).bytes.size ≤ maxPayload := by
  unfold push
  split
  · exact hp
  · rw [Array.size_push]
    omega

namespace Reader

/-- How many bytes of a payload a reader keeps. -/
def kept : Reader → Nat
  | outside => 0
  | inside p => p.bytes.size
  | beforeSum p => p.bytes.size
  | insideSum p _ => p.bytes.size

theorem kept_feed {r : Reader} (hr : r.kept ≤ maxPayload) (b : Byte) :
    (r.feed b).2.kept ≤ maxPayload := by
  cases r with
  | outside =>
      simp only [feed]
      split
      · exact Nat.zero_le _
      · split
        · exact Nat.zero_le _
        · exact Nat.zero_le _
  | inside p =>
      simp only [feed]
      split
      · exact hr
      · split
        · exact Nat.zero_le _
        · exact Payload.size_push hr b
  | beforeSum p => exact hr
  | insideSum p high => exact Nat.zero_le _

theorem kept_feedAll {r : Reader} (hr : r.kept ≤ maxPayload) (s : List Byte) :
    (r.feedAll s).2.kept ≤ maxPayload := by
  induction s generalizing r with
  | nil => exact hr
  | cons b s ih => exact ih (kept_feed hr b)

end Reader

/-! ### Framed packets -/

theorem valid_frame {payload : List Byte} (hlength : payload.length ≤ 4096) :
    Valid payload (Hex.upperDigit ((checksum payload).toNat / 16))
      (Hex.upperDigit ((checksum payload).toNat % 16)) := by
  have hsum := (checksum payload).isLt
  refine ⟨hlength, (checksum payload).toNat / 16, (checksum payload).toNat % 16,
    ⟨by omega, .inr rfl⟩, ⟨by omega, .inr rfl⟩, ?_⟩
  rw [← toNat_checksum]
  omega

theorem feedAll_frame {r : Reader} (hr : r = .outside ∨ ∃ p, r = .inside p)
    {payload : List Byte} (hopening : opening ∉ payload) (hclosing : closing ∉ payload)
    (hlength : payload.length ≤ 4096) :
    r.feedAll (frame payload) = ([.packet payload], .outside) := by
  unfold frame
  rw [Reader.feedAll_packet hr hopening hclosing, Payload.finish_of_valid (valid_frame hlength)]
  rfl

/-- **Packets are told apart as they are framed.**  A reader tells of the events that the grammar
gives a stream, of all of them and no others.  It never keeps more than 4096 bytes.  A payload
that was framed is read as itself, outside a packet as well as inside one that has not ended. -/
theorem readers_tell_streams :
    (∀ s events, Stream s events ↔ (Reader.outside.feedAll s).1 = events) ∧
    (∀ s, (Reader.outside.feedAll s).2.kept ≤ 4096) ∧
    ∀ payload, opening ∉ payload → closing ∉ payload → payload.length ≤ 4096 →
      ∀ r, (r = Reader.outside ∨ ∃ p, r = .inside p) →
        r.feedAll (frame payload) = ([.packet payload], .outside) := by
  refine ⟨Stream.iff_feedAll, fun s => Reader.kept_feedAll (Nat.zero_le _) s, ?_⟩
  intro payload hopening hclosing hlength r hr
  exact feedAll_frame hr hopening hclosing hlength

/-- An answer is read although the packet before it was given up. -/
theorem readers_tell_streams_anew :
    let r := (Reader.outside.feedAll (Text.ascii "+$g")).2
    r = .inside (.of (Text.ascii "g")) ∧ frame (Text.ascii "OK") = Text.ascii "$OK#9A" ∧
    r.feedAll (Text.ascii "$OK#9A") = ([.packet (Text.ascii "OK")], .outside) := by
  intro r
  have hinside : r = .inside (.of (Text.ascii "g")) := by decide
  have hframed : frame (Text.ascii "OK") = Text.ascii "$OK#9A" := by decide
  obtain ⟨-, -, hread⟩ := readers_tell_streams
  have hanswer := hread (Text.ascii "OK") (by decide) (by decide) (by decide) r
    (.inr ⟨_, hinside⟩)
  rw [hframed] at hanswer
  exact ⟨hinside, hframed, hanswer⟩

end Packet

end HomeComputer

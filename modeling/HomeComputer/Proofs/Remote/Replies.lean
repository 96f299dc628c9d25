/-
Everything the server says can be read back.

To a reader two bytes are not like the others: the one that begins a packet and the one that ends
it.  A payload is `Sayable` if it has neither and is not too long, and a reader outside a packet
makes of its frame that payload and nothing else.

Answers are texts that are fixed, or data in hexadecimal.  The texts are sayable one by one.  Data
has digits only, two for a byte, so what counts is how long it is: all the registers take 264
digits if the codec is lawful, and memory as many as a packet holds, whatever was asked for.

The acknowledgements between the packets mean nothing to a reader outside of one.  So of a whole
session it makes the answers, all of them and in their order (`replies`).
-/
import HomeComputer.Proofs.Remote.RegisterBytes
import HomeComputer.Proofs.Remote.StopReplies

namespace HomeComputer

/-! ### Digits -/

namespace Hex

theorem decode?_encode (bytes : List Byte) : decode? (encode bytes) = some bytes := by
  induction bytes with
  | nil => rfl
  | cons b bytes ih =>
      have hb := b.isLt
      have hpair : pair? (lowerDigit (b.toNat / 16)) (lowerDigit (b.toNat % 16)) = some b :=
        pair?_eq_some_iff.mpr ⟨b.toNat / 16, b.toNat % 16, ⟨by omega, .inl rfl⟩,
          ⟨by omega, .inl rfl⟩, by omega⟩
      simp only [encode, decode?, hpair, ih]
      rfl

theorem length_encode (bytes : List Byte) : (encode bytes).length = 2 * bytes.length := by
  induction bytes with
  | nil => rfl
  | cons b bytes ih =>
      rw [encode, List.length_cons, List.length_cons, List.length_cons, ih]
      omega

theorem lowerDigit_mem : ∀ v < 16, lowerDigit v ∈ Text.ascii "0123456789abcdef" := by decide

theorem mem_of_mem_encode {bytes : List Byte} {c : Byte} (hc : c ∈ encode bytes) :
    c ∈ Text.ascii "0123456789abcdef" := by
  induction bytes with
  | nil => cases hc
  | cons b bytes ih =>
      have hb := b.isLt
      rw [encode, List.mem_cons, List.mem_cons] at hc
      rcases hc with rfl | rfl | hc
      · exact lowerDigit_mem _ (by omega)
      · exact lowerDigit_mem _ (by omega)
      · exact ih hc

end Hex

/-! ### Payloads -/

namespace Packet

/-- A payload that a reader can tell from its frame. -/
structure Sayable (payload : List Byte) : Prop where
  length : payload.length ≤ 4096
  opening : opening ∉ payload
  closing : closing ∉ payload

instance (payload : List Byte) : Decidable (Sayable payload) :=
  decidable_of_iff
    (payload.length ≤ 4096 ∧ Packet.opening ∉ payload ∧ Packet.closing ∉ payload)
    ⟨fun h => ⟨h.1, h.2.1, h.2.2⟩, fun h => ⟨h.length, h.opening, h.closing⟩⟩

theorem sayable_encode {bytes : List Byte} (hlength : bytes.length ≤ 2048) :
    Sayable (Hex.encode bytes) := by
  refine ⟨?_, fun hopening => ?_, fun hclosing => ?_⟩
  · rw [Hex.length_encode]
    omega
  · exact absurd (Hex.mem_of_mem_encode hopening) (by decide)
  · exact absurd (Hex.mem_of_mem_encode hclosing) (by decide)

theorem Reader.feedAll_append (r : Reader) (bytes more : List Byte) :
    r.feedAll (bytes ++ more) =
      ((r.feedAll bytes).1 ++ ((r.feedAll bytes).2.feedAll more).1,
        ((r.feedAll bytes).2.feedAll more).2) := by
  induction bytes generalizing r with
  | nil => rfl
  | cons b bytes ih =>
      cases hfeed : r.feed b with
      | mk event next =>
          cases event with
          | none => rw [List.cons_append, feedAll_of_none hfeed, feedAll_of_none hfeed, ih]
          | some event =>
              rw [List.cons_append, feedAll_of_some hfeed, feedAll_of_some hfeed, ih]
              rfl

/-- Outside a packet a reader makes of these bytes just these payloads. -/
def ReadAs (bytes : List Byte) (payloads : List (List Byte)) : Prop :=
  Reader.outside.feedAll bytes = (payloads.map .packet, .outside)

theorem readAs_nil : ReadAs [] [] := rfl

theorem Sayable.readAs_frame {payload : List Byte} (h : Sayable payload) :
    ReadAs (frame payload) [payload] :=
  feedAll_frame (.inl rfl) h.opening h.closing h.length

theorem ReadAs.append {bytes more : List Byte} {payloads others : List (List Byte)}
    (h : ReadAs bytes payloads) (hmore : ReadAs more others) :
    ReadAs (bytes ++ more) (payloads ++ others) := by
  unfold ReadAs at *
  rw [Reader.feedAll_append, h, hmore, List.map_append]

/-- Several packets after one another. -/
theorem readAs_flatMap_frame {payloads : List (List Byte)} (h : ∀ p ∈ payloads, Sayable p) :
    ReadAs (payloads.flatMap frame) payloads := by
  induction payloads with
  | nil => exact readAs_nil
  | cons p payloads ih =>
      obtain ⟨hp, hrest⟩ := List.forall_mem_cons.mp h
      exact hp.readAs_frame.append (ih hrest)

end Packet

/-! ### Answers -/

namespace Response

/-- A response of which the answer, if there is one, is sayable. -/
def Sayable (r : Response) : Prop := ∀ reply, r.reply = some reply → Packet.Sayable reply

theorem sayable_text {s : String} (h : Packet.Sayable (Text.ascii s)) : (text s).Sayable := by
  intro reply hreply
  obtain rfl := Option.some.inj hreply
  exact h

theorem sayable_data {bytes : List Byte} (hlength : bytes.length ≤ 2048) :
    (data bytes).Sayable := by
  intro reply hreply
  obtain rfl := Option.some.inj hreply
  exact Packet.sayable_encode hlength

theorem sayable_ok : ok.Sayable := sayable_text (by decide)

theorem sayable_error : error.Sayable := sayable_text (by decide)

theorem sayable_silent : silent.Sayable := nofun

end Response

theorem StopReason.sayable_reply (reason : StopReason) :
    Packet.Sayable (Text.ascii reason.reply) := by
  cases reason with
  | interrupted => exact (by decide : Packet.Sayable (Text.ascii "S02"))
  | breakpoint _ | requested => exact (by decide : Packet.Sayable (Text.ascii "S05"))

namespace Command

theorem sayable_of_canned? {payload : List Byte} {reply : String}
    (h : canned? payload = some reply) : Packet.Sayable (Text.ascii reply) := by
  unfold canned? at h
  repeat' split at h
  all_goals cases h
  all_goals decide

section
variable {reply : String}

theorem getD_malformed_ne_canned {o : Option Command} (h : ∀ c, o = some c → c ≠ canned reply) :
    o.getD malformed ≠ canned reply := by
  cases o with
  | none => exact nofun
  | some c => exact h c rfl

theorem map_getD_ne_canned {α : Type} {make : α → Command} (hmake : ∀ a, make a ≠ canned reply)
    (o : Option α) : (o.map make).getD malformed ≠ canned reply := by
  cases o with
  | none => exact nofun
  | some a => exact hmake a

theorem breakpoint_ne_canned {make : Word → Command} (hmake : ∀ a, make a ≠ canned reply)
    (args : List Byte) : breakpoint make args ≠ canned reply := by
  unfold breakpoint
  split
  · exact nofun
  · split
    · split
      · exact nofun
      · exact hmake _
    · exact nofun

theorem ofLetter_ne_canned (letter : Char) (args : List Byte) :
    ofLetter letter args ≠ canned reply := by
  unfold ofLetter
  split
  case h_5 =>
    refine getD_malformed_ne_canned fun c hc => ?_
    unfold writeRegister? at hc
    simp only [Option.bind_eq_bind, Option.bind_eq_some_iff] at hc
    obtain ⟨_, -, _, -, _, -, hc⟩ := hc
    obtain rfl := Option.some.inj hc
    exact nofun
  case h_7 =>
    refine getD_malformed_ne_canned fun c hc => ?_
    unfold writeMemory? at hc
    simp only [Option.bind_eq_bind, Option.bind_eq_some_iff] at hc
    obtain ⟨_, -, _, -, _, -, hc⟩ := hc
    split at hc
    · obtain rfl := Option.some.inj hc
      exact nofun
    · cases hc
  case h_1 | h_2 => split <;> exact nofun
  case h_3 | h_4 | h_6 | h_10 | h_11 =>
    refine map_getD_ne_canned (fun _ => ?_) _
    exact nofun
  case h_8 | h_9 =>
    refine breakpoint_ne_canned (fun _ => ?_) args
    exact nofun
  case h_12 | h_13 | h_14 => exact nofun

end

/-- Only what is recognised as such a question is answered like one. -/
theorem canned?_of_parse {payload : List Byte} {reply : String}
    (h : parse payload = canned reply) : canned? payload = some reply := by
  unfold parse at h
  cases hcanned : canned? payload with
  | some known =>
      simp only [hcanned] at h
      rw [canned.inj h]
  | none =>
      simp only [hcanned] at h
      cases payload with
      | nil => cases h
      | cons letter args => exact absurd h (ofLetter_ne_canned _ args)

end Command

namespace Machine

variable {δ : Type}

theorem sayable_whileStopped (m : Machine δ) (change : Option (Machine δ)) :
    (m.whileStopped change).1.Sayable := by
  rcases m.whileStopped_cases change with hrefused | ⟨m', -, hdone⟩
  · rw [hrefused]
    exact Response.sayable_error
  · rw [hdone]
    exact Response.sayable_ok

variable [DeviceAccess δ]

theorem readFrom_eq_take (m : Machine δ) (addr : Word) (i : Nat) {len most : Nat}
    (hlen : len ≤ most) : m.readFrom addr i len = (m.readFrom addr i most).take len := by
  induction len generalizing i most with
  | zero => rfl
  | succ len ih =>
      cases most with
      | zero => omega
      | succ most =>
          rw [readFrom_succ, readFrom_succ, ih (i + 1) (Nat.le_of_succ_le_succ hlen)]
          cases (addr.after? i).bind m.byteAt? with
          | none => rfl
          | some b => rfl

theorem readMemory_eq_take (m : Machine δ) (addr : Word) {len most : Nat} (hlen : len ≤ most) :
    m.readMemory addr len = (m.readMemory addr most).take len :=
  m.readFrom_eq_take addr 0 hlen

/-- At most as many bytes are read as are asked for. -/
theorem length_readMemory_le (m : Machine δ) (addr : Word) (len : Nat) :
    (m.readMemory addr len).length ≤ len := by
  rw [m.readMemory_eq_take addr (Nat.le_refl len)]
  exact List.length_take_le len _

/-- Where there is a byte at every address, all are read. -/
theorem length_readMemory {m : Machine δ} {addr : Word} {len : Nat}
    (hpresent : ∀ i < len,
      addr.toNat + i < 2 ^ 32 ∧ (m.byteAt? (Word.addressFrom addr.toNat i)).isSome = true) :
    (m.readMemory addr len).length = len := by
  refine length_readFrom fun i _ hi => ?_
  rw [Nat.zero_add] at hi
  obtain ⟨hlt, hbyte⟩ := hpresent i hi
  rwa [Word.after?_of_lt hlt]

theorem sayable_dispatch [RegisterCodec] (hcodec : RegisterCodec.Lawful) (m : Machine δ)
    {c : Command} (hcanned : ∀ reply, c = .canned reply → Packet.Sayable (Text.ascii reply)) :
    (m.dispatch c).1.Sayable := by
  cases c with
  | stopReason => exact Response.sayable_text (StopReason.sayable_reply .requested)
  | step addr => exact Response.sayable_text (StopReason.sayable_reply .requested)
  | readRegisters =>
      rw [hcodec.dispatch_readRegisters]
      refine Response.sayable_data ?_
      rw [CoreRegisters.length_bytes]
      omega
  | writeRegisters data => exact m.sayable_whileStopped _
  | writeRegister number value => exact m.sayable_whileStopped _
  | readRegister number =>
      simp only [dispatch]
      split
      · exact Response.sayable_error
      · exact Response.sayable_data (by simp [Word.bytes])
  | readMemory addr len =>
      exact Response.sayable_data ((m.length_readMemory_le _ _).trans (Nat.min_le_right _ _))
  | writeMemory addr data =>
      rw [dispatch_writeMemory]
      split
      · exact Response.sayable_ok
      · exact Response.sayable_error
  | insertBreakpoint addr => exact Response.sayable_ok
  | removeBreakpoint addr => exact Response.sayable_ok
  | resume addr => exact Response.sayable_silent
  | detach => exact Response.sayable_ok
  | kill => exact Response.sayable_silent
  | canned reply => exact Response.sayable_text (hcanned reply rfl)
  | malformed => exact Response.sayable_error
  | unsupported => exact Response.sayable_text (by decide)

/-- Whatever the payload of a packet is, the answer to it is sayable. -/
theorem sayable_dispatch_parse [RegisterCodec] (hcodec : RegisterCodec.Lawful) (m : Machine δ)
    (payload : List Byte) : (m.dispatch (Command.parse payload)).1.Sayable :=
  sayable_dispatch hcodec m fun _ hreply =>
    Command.sayable_of_canned? (Command.canned?_of_parse hreply)

/-- However many bytes are asked for, the answer is of the first 2048. -/
theorem dispatch_readMemory [RegisterCodec] (m : Machine δ) (addr len : Word) :
    (m.dispatch (.readMemory addr len)).1 =
      .data ((m.readMemory addr len.toNat).take 2048) := by
  show Response.data (m.readMemory addr (min len.toNat 2048)) =
    .data ((m.readMemory addr len.toNat).take 2048)
  rw [m.readMemory_eq_take addr (Nat.min_le_left len.toNat 2048), Nat.min_comm, ← List.take_take,
    ← m.readMemory_eq_take addr (Nat.le_refl len.toNat)]

end Machine

/-! ### Sessions -/

namespace Server

section
variable {δ : Type} [DeviceAccess δ] [RegisterCodec]

/-- The payloads that an event is answered with at once. -/
def repliesTo (s : Server δ) : Packet.Event → List (List Byte)
  | .packet payload => (s.machine.dispatch (Command.parse payload)).1.reply.toList
  | .corrupt => []
  | .interrupt =>
      if s.machine.control.isRunning then [] else [Text.ascii StopReason.interrupted.reply]

/-- The payloads that are sent in a turn. -/
def repliesIn (s : Server δ) : Turn δ → List (List Byte)
  | .deal => (s.event?.map s.repliesTo).getD []
  | .flush => if s.isConnected then s.waiting.map (Text.ascii ·.reason.reply) else []
  | .host _ | .receive _ => []

/-- The payloads that are sent in a history, in its order. -/
def replies (s : Server δ) : List (Turn δ) → List (List Byte)
  | [] => []
  | t :: turns => s.repliesIn t ++ (s.turn t).replies turns

theorem readAs_answers (hcodec : RegisterCodec.Lawful) (s : Server δ) (event : Packet.Event) :
    Packet.ReadAs ((s.answers event).flatMap Utterance.bytes) (s.repliesTo event) := by
  cases event with
  | corrupt => rfl
  | packet payload =>
      have hack : Packet.ReadAs (Text.ascii "+") [] := rfl
      have hsayable := Machine.sayable_dispatch_parse hcodec s.machine payload
      unfold answers repliesTo
      rw [List.flatMap_singleton]
      show Packet.ReadAs (Text.ascii "+" ++ _) ([] ++ _)
      refine hack.append ?_
      cases hreply : (s.machine.dispatch (Command.parse payload)).1.reply with
      | none => exact Packet.readAs_nil
      | some reply => exact (hsayable reply hreply).readAs_frame
  | interrupt =>
      simp only [answers, repliesTo]
      split
      · exact Packet.readAs_nil
      · exact (StopReason.sayable_reply .interrupted).readAs_frame

theorem readAs_sends (hcodec : RegisterCodec.Lawful) (s : Server δ) (t : Turn δ) :
    Packet.ReadAs ((s.sends t).flatMap Utterance.bytes) (s.repliesIn t) := by
  cases t with
  | host v => exact Packet.readAs_nil
  | receive data => exact Packet.readAs_nil
  | deal =>
      unfold sends repliesIn
      cases s.event? with
      | none => exact Packet.readAs_nil
      | some event => exact readAs_answers hcodec s event
  | flush =>
      simp only [sends, repliesIn]
      split
      · have hsayable : ∀ p ∈ s.waiting.map (Text.ascii ·.reason.reply), Packet.Sayable p := by
          intro p hp
          obtain ⟨n, -, rfl⟩ := List.mem_map.mp hp
          exact n.reason.sayable_reply
        have hread := Packet.readAs_flatMap_frame hsayable
        rw [List.flatMap_map] at hread
        rw [Utterance.flatMap_bytes_stop]
        exact hread
      · exact Packet.readAs_nil

theorem readAs_said (hcodec : RegisterCodec.Lawful) (s : Server δ) (turns : List (Turn δ)) :
    Packet.ReadAs ((s.said turns).flatMap Utterance.bytes) (s.replies turns) := by
  induction turns generalizing s with
  | nil => exact Packet.readAs_nil
  | cons t turns ih =>
      rw [said, List.flatMap_append]
      exact (readAs_sends hcodec s t).append (ih (s.turn t))

theorem outgoing_turn (s : Server δ) (t : Turn δ) :
    (s.turn t).outgoing = s.outgoing ++ (s.sends t).flatMap Utterance.bytes := by
  cases t with
  | host v => exact (List.append_nil _).symm
  | receive data => exact (List.append_nil _).symm
  | deal =>
      unfold sends
      show s.dealNext.outgoing = _
      cases hevent : s.event? with
      | none =>
          rw [dealNext_of_none hevent]
          exact (List.append_nil _).symm
      | some event =>
          rw [dealNext_of_some hevent]
          split
          · exact s.read.outgoing_handle event
          · exact s.read.outgoing_handle event
  | flush =>
      simp only [turn, sends]
      split
      · rw [Utterance.flatMap_bytes_stop]
        rfl
      · exact (List.append_nil _).symm

/-- Nothing that was sent is taken back. -/
theorem outgoing_turnAll (s : Server δ) (turns : List (Turn δ)) :
    (s.turnAll turns).outgoing = s.outgoing ++ (s.said turns).flatMap Utterance.bytes := by
  induction turns generalizing s with
  | nil => exact (List.append_nil _).symm
  | cons t turns ih =>
      rw [said, List.flatMap_append, ← List.append_assoc, ← outgoing_turn]
      exact ih (s.turn t)

/-- **Everything the server says can be read back.**  Whatever the computer and the payload, as long
as the codec of the registers is lawful, the answer has at most 4096 bytes, none of which begins or
ends a packet, and a reader outside a packet makes of its frame the answer and nothing else.  So it
is with the answers that tell of stops.

The answer to a question for memory is in hexadecimal of lower case, and of the first 2048 bytes
at most, however many were asked for; if so many are asked for and are there, it is as long as an
answer may be.

With such a codec, what a server sends in any history is read as its answers, all of them and in
their order. -/
theorem said_is_read_back :
    (RegisterCodec.Lawful → ∀ (m : Machine δ) (payload reply : List Byte),
      (m.dispatch (Command.parse payload)).1.reply = some reply →
      Packet.Sayable reply ∧
      Packet.Reader.outside.feedAll (Packet.frame reply) = ([.packet reply], .outside)) ∧
    (∀ reason : StopReason,
      let reply := Text.ascii reason.reply
      Packet.Sayable reply ∧
      Packet.Reader.outside.feedAll (Packet.frame reply) = ([.packet reply], .outside)) ∧
    (∀ (m : Machine δ) (payload : List Byte) (addr len : Word),
      Command.parse payload = .readMemory addr len →
      let bytes := (m.readMemory addr len.toNat).take 2048
      let reply := Hex.encode bytes
      (m.dispatch (Command.parse payload)).1.reply = some reply ∧
      bytes.length ≤ 2048 ∧ Hex.decode? reply = some bytes ∧
      (∀ c ∈ reply, c ∈ Text.ascii "0123456789abcdef") ∧
      (2048 ≤ len.toNat →
        (∀ i < 2048, addr.toNat + i < 2 ^ 32 ∧
          (m.byteAt? (Word.addressFrom addr.toNat i)).isSome = true) → reply.length = 4096)) ∧
    (RegisterCodec.Lawful → ∀ (s : Server δ) (turns : List (Turn δ)), ∃ sent,
      (s.turnAll turns).outgoing = s.outgoing ++ sent ∧
      Packet.Reader.outside.feedAll sent = ((s.replies turns).map .packet, .outside)) := by
  refine ⟨?_, ?_, ?_, ?_⟩
  · intro hcodec m payload reply hreply
    have hsayable := Machine.sayable_dispatch_parse hcodec m payload reply hreply
    exact ⟨hsayable, hsayable.readAs_frame⟩
  · intro reason
    exact ⟨reason.sayable_reply, reason.sayable_reply.readAs_frame⟩
  · intro m payload addr len hparse bytes reply
    refine ⟨?_, List.length_take_le _ _, Hex.decode?_encode bytes,
      fun c hc => Hex.mem_of_mem_encode hc, fun hlen hpresent => ?_⟩
    · rw [hparse, m.dispatch_readMemory addr len]
      rfl
    · have hall : bytes = m.readMemory addr 2048 := (m.readMemory_eq_take addr hlen).symm
      rw [Hex.length_encode, hall, Machine.length_readMemory hpresent]
  · intro hcodec s turns
    exact ⟨_, s.outgoing_turnAll turns, readAs_said hcodec s turns⟩

end

/-- All of the address space is asked for, from RAM on: the answer is as long as one may be, and is
read. -/
theorem said_is_read_back_longest :
    let m := Machine.fresh {} ({} : Devices)
    let response := (m.dispatch (Command.parse (Text.ascii "m80000000,ffffffff"))).1
    ∃ reply, response.reply = some reply ∧ reply.length = 4096 ∧
      Packet.Reader.outside.feedAll (Packet.frame reply) = ([.packet reply], .outside) := by
  intro m response
  have hparse : Command.parse (Text.ascii "m80000000,ffffffff") =
      .readMemory 0x80000000#32 0xffffffff#32 := by decide
  have hsound : m.map.Sound := (Machine.reachable_fresh (by decide) ({} : Devices)).sound
  have hpresent : ∀ i < 2048, (0x80000000#32 : Word).toNat + i < 2 ^ 32 ∧
      (m.byteAt? (Word.addressFrom (0x80000000#32 : Word).toNat i)).isSome = true := by
    intro i hi
    have hram : Region.ram AddressMap.ramStart AddressMap.ramSize ∈ m.map.regions :=
      .tail _ (.tail _ (.head _))
    have hstart : (0x80000000#32 : Word).toNat = 0x80000000 := rfl
    refine ⟨by omega, Machine.isSome_byteAt? hsound hram rfl ?_⟩
    simp only [Region.contains, Word.toNat_aligned, Word.addressFrom,
      Word.toNat_ofNat_of_lt (by omega : (0x80000000#32 : Word).toNat + i < 2 ^ 32), Region.stop,
      Region.ram, AddressMap.ramStart, AddressMap.ramSize, Bool.and_eq_true, decide_eq_true_eq]
    have hsize : (0x00100000#32 : Word).toNat = 0x00100000 := rfl
    omega
  obtain ⟨hread, -, hmemory, -⟩ := @said_is_read_back Devices _ _
  obtain ⟨hreply, -, -, -, hlength⟩ := hmemory m _ _ _ hparse
  obtain ⟨-, hevents⟩ := hread RegisterCodec.lawful_littleEndian m _ _ hreply
  exact ⟨_, hreply, hlength (by decide) hpresent, hevents⟩

end Server

end HomeComputer

/-
How the connection cuts a client's bytes.

A poll reads what has arrived, so bytes that were sent together may be dealt with in one poll or
in two.  The computer does not notice: what becomes of it, and of the session, is the dealing of
all the bytes, and the dealing of two stretches is made of theirs.

What is sent is the same too, but for the answers that tell of stops.  Those wait in the
controller until the end of a poll.  So the answer to an interrupt that stopped the running
computer comes before the answers to what is read in the next poll, but after the answers to
what was read in the same one, and it is lost if the same poll sees the session end.
-/
import HomeComputer.Proofs.Machine.Memory
import HomeComputer.Proofs.Remote.Dealing
import HomeComputer.Remote.LittleEndian

namespace HomeComputer

/-- The answers for the notices that are for the debugger. -/
def stopReplies (notices : List Notice) : List Byte :=
  (notices.filter (·.listener == .debugger)).flatMap fun n =>
    Packet.frame (Text.ascii n.reason.reply)

theorem stopReplies_append (notices more : List Notice) :
    stopReplies (notices ++ more) = stopReplies notices ++ stopReplies more := by
  unfold stopReplies
  rw [List.filter_append, List.flatMap_append]

/-- The notices that are for others. -/
def othersOf (notices : List Notice) : List Notice := notices.filter (·.listener != .debugger)

theorem filter_othersOf (notices : List Notice) :
    (othersOf notices).filter (·.listener == .debugger) = [] := by
  unfold othersOf
  rw [List.filter_filter, List.filter_eq_nil_iff]
  intro n _
  simp

theorem stopReplies_othersOf (notices : List Notice) : stopReplies (othersOf notices) = [] := by
  unfold stopReplies
  rw [filter_othersOf]
  rfl

theorem othersOf_append (notices more : List Notice) :
    othersOf (notices ++ more) = othersOf notices ++ othersOf more :=
  List.filter_append notices more

theorem othersOf_othersOf (notices : List Notice) :
    othersOf (othersOf notices) = othersOf notices := by
  unfold othersOf
  rw [List.filter_filter]
  simp

/-- Where there are none for the debugger, all are for others. -/
theorem othersOf_eq_self {notices : List Notice}
    (hnone : notices.filter (·.listener == .debugger) = []) : othersOf notices = notices := by
  unfold othersOf
  rw [List.filter_eq_self]
  intro n hn
  have hother := List.filter_eq_nil_iff.mp hnone n hn
  simpa using hother

namespace Machine

variable {δ : Type}

/-- The computer with the notices for the debugger collected. -/
def collected (m : Machine δ) : Machine δ :=
  { m with control := { m.control with notices := othersOf m.control.notices } }

/-- What is collected may be collected early. -/
theorem collected_behind (m : Machine δ) (told more : List Notice) :
    (m.behind (othersOf told ++ more)).collected = (m.behind (told ++ more)).collected := by
  unfold behind Controller.behind collected
  simp only [othersOf_append, othersOf_othersOf]

end Machine

namespace Server

variable {δ : Type}

theorem eq_of_parts {s t : Server δ} (hmachine : s.machine = t.machine)
    (hsession : s.session = t.session) (houtgoing : s.outgoing = t.outgoing) : s = t := by
  obtain ⟨machine, session, outgoing⟩ := s
  obtain rfl : machine = t.machine := hmachine
  obtain rfl : session = t.session := hsession
  obtain rfl : outgoing = t.outgoing := houtgoing
  rfl

/-! ### Sending the notices that wait -/

theorem flush_snd (s : Server δ) :
    s.flush.2 = { s with
      machine := s.machine.collected
      outgoing := s.outgoing ++ stopReplies s.machine.control.notices } :=
  rfl

theorem flush_of_none {s : Server δ}
    (hnone : s.machine.control.notices.filter (·.listener == .debugger) = []) :
    s.flush = (false, s) := by
  have hothers : s.machine.collected = s.machine := by
    unfold Machine.collected
    rw [othersOf_eq_self hnone]
  have hreplies : stopReplies s.machine.control.notices = [] := by
    unfold stopReplies
    rw [hnone]
    rfl
  refine Prod.ext ?_ ?_
  · show (!(s.machine.control.notices.filter (·.listener == .debugger)).isEmpty) = false
    rw [hnone]
    rfl
  · rw [flush_snd, hothers, hreplies, List.append_nil]

/-- After that none waits. -/
theorem flush_flush (s : Server δ) : s.flush.2.flush = (false, s.flush.2) :=
  flush_of_none (filter_othersOf s.machine.control.notices)

section
variable [DeviceAccess δ] [RegisterCodec]

/-! ### One poll -/

/-- What is left after a poll that read bytes with this dealing. -/
def settled (s : Server δ) (d : Dealing δ) : Server δ :=
  if d.goesOn then { s.after d with session := some { reader := d.reader } }.flush.2
  else (s.after d).disconnect

theorem readSome_eq (s : Server δ) {c : Session} (hlength : c.incoming.length ≤ pollSize) :
    s.readSome c = s.settled (s.machine.deal c.reader c.incoming) := by
  unfold readSome settled
  rw [List.take_of_length_le hlength, consume_eq]
  cases hgoes : (s.machine.deal c.reader c.incoming).goesOn with
  | false => rfl
  | true =>
      rw [List.drop_of_length_le hlength]
      rfl

omit [DeviceAccess δ] [RegisterCodec] in
theorem hasIncoming_settled (s : Server δ) (d : Dealing δ) : (s.settled d).hasIncoming = false := by
  unfold settled
  split
  · rfl
  · rfl

theorem pollAll_of_idle {s : Server δ} (hidle : s.hasIncoming = false) (polls : Nat) :
    s.pollAll polls = s := by
  cases polls with
  | zero => rfl
  | succ polls =>
      unfold pollAll
      rw [hidle]
      rfl

theorem pollAll_of_hasIncoming {s : Server δ} (hincoming : s.hasIncoming = true) (polls : Nat) :
    s.pollAll (polls + 1) = s.poll.pollAll polls := by
  rw [pollAll, if_pos hincoming]

/-- A poll that finds notices sends them; another one reads. -/
theorem poll_eq {s : Server δ} {c : Session} (hs : s.session = some c) (hc : c.incoming ≠ []) :
    s.poll = if s.flush.1 then s.flush.2 else s.flush.2.readSome c := by
  have hincoming : c.incoming.isEmpty = false := by simpa using hc
  unfold poll
  rw [hs]
  cases s.flush with
  | mk waited s' =>
      cases waited with
      | true => rfl
      | false => simp [hincoming]

/-- What has arrived is read in the end, after what waited was sent. -/
theorem pollAll_eq {s : Server δ} {c : Session} (hs : s.session = some c) (hc : c.incoming ≠ [])
    (hlength : c.incoming.length ≤ pollSize) (polls : Nat) :
    s.pollAll (polls + 2) = s.flush.2.settled (s.machine.deal c.reader c.incoming) := by
  have hincoming {t : Server δ} (ht : t.session = some c) : t.hasIncoming = true := by
    unfold hasIncoming
    rw [ht]
    simpa using hc
  have hread : s.flush.2.readSome c = s.flush.2.settled (s.machine.deal c.reader c.incoming) :=
    readSome_eq s.flush.2 hlength
  have hidle := hasIncoming_settled s.flush.2 (s.machine.deal c.reader c.incoming)
  rw [pollAll_of_hasIncoming (hincoming hs), poll_eq hs hc]
  by_cases hwaited : s.flush.1 = true
  · have hflushed : s.flush.2.session = some c := hs
    rw [if_pos hwaited, pollAll_of_hasIncoming (hincoming hflushed), poll_eq hflushed hc,
      flush_flush, if_neg Bool.false_ne_true, hread, pollAll_of_idle hidle]
  · rw [if_neg hwaited, hread, pollAll_of_idle hidle]

theorem serve_of_none {s : Server δ} (hs : s.session = none) (data : List Byte) :
    s.serve data = s := by
  have hreceive : s.receive data = s := by
    unfold receive
    rw [hs, Option.map_none, ← hs]
  have hidle : s.hasIncoming = false := by
    unfold hasIncoming
    rw [hs]
    rfl
  unfold serve
  rw [hreceive, pollAll_of_idle hidle]

theorem serve_nil {s : Server δ} (hidle : s.hasIncoming = false) : s.serve [] = s := by
  have hreceive : s.receive [] = s := by
    unfold receive
    cases hs : s.session with
    | none => rw [Option.map_none, ← hs]
    | some c => rw [Option.map_some, List.append_nil, ← hs]
  unfold serve
  rw [hreceive, pollAll_of_idle hidle]

/-- Bytes that arrive together are dealt with together. -/
theorem serve_eq {s : Server δ} {r : Packet.Reader} (hs : s.session = some { reader := r })
    {data : List Byte} (hdata : data ≠ []) (hlength : data.length ≤ pollSize) :
    s.serve data = s.flush.2.settled (s.machine.deal r data) := by
  have hreceive : s.receive data =
      { s with session := some { reader := r, incoming := data } } := by
    unfold receive
    rw [hs]
    rfl
  have harrived : (s.receive data).session = some { reader := r, incoming := data } := by
    rw [hreceive]
  obtain ⟨b, rest, rfl⟩ := List.exists_cons_of_ne_nil hdata
  have hpolled := pollAll_eq harrived hdata hlength rest.length
  unfold serve
  rw [hreceive] at hpolled ⊢
  exact hpolled

/-! ### Two polls and one -/

omit [DeviceAccess δ] [RegisterCodec] in
theorem settled_of_goesOn (s : Server δ) {d : Dealing δ} (hgoes : d.goesOn = true) :
    s.settled d = {
      machine := (d.machine.behind (s.machine.control.notices ++ d.told)).collected
      session := some { reader := d.reader }
      outgoing := s.outgoing ++ d.answers ++
        stopReplies (s.machine.control.notices ++ d.told ++ d.machine.control.notices) } := by
  unfold settled
  rw [if_pos hgoes]
  rfl

omit [DeviceAccess δ] [RegisterCodec] in
theorem settled_of_ended (s : Server δ) {d : Dealing δ} (hends : ¬d.goesOn = true) :
    s.settled d =
      let machine := (d.machine.behind (s.machine.control.notices ++ d.told)).collected
      { machine := { machine with control := machine.control.resetSession }
        session := none
        outgoing := s.outgoing ++ d.answers } := by
  unfold settled
  rw [if_neg hends]
  rfl

/-- Two polls against one, from where no notice waits: only the answers to what the first
dealing told are in another place. -/
theorem settled_settled {f : Server δ} (hf : stopReplies f.machine.control.notices = [])
    (m : Machine δ) (r : Packet.Reader) (b₁ b₂ : List Byte) :
    let d₁ := m.deal r b₁
    let d₂ := d₁.machine.deal d₁.reader b₂
    d₁.goesOn = true →
    let once := f.settled (d₁.append d₂)
    let twice := (f.settled d₁).settled d₂
    let sent := f.outgoing ++ d₁.answers
    once.machine = twice.machine ∧ once.session = twice.session ∧
    once.outgoing = sent ++ d₂.answers ++
      (if d₂.goesOn then stopReplies d₁.told ++ stopReplies d₂.told else []) ∧
    twice.outgoing = sent ++ stopReplies d₁.told ++ d₂.answers ++
      (if d₂.goesOn then stopReplies d₂.told else []) := by
  intro d₁ d₂ hgoes once twice sent
  have hd₁ : d₁.machine.control.notices = [] := rfl
  have hd₂ : d₂.machine.control.notices = [] := rfl
  have hfirst := settled_of_goesOn f hgoes
  rw [hd₁, List.append_nil] at hfirst
  have hnotices : (f.settled d₁).machine.control.notices =
      othersOf (f.machine.control.notices ++ d₁.told) := by
    rw [hfirst]
    exact congrArg othersOf (List.append_nil _)
  have hsent : (f.settled d₁).outgoing = sent ++ stopReplies d₁.told := by
    rw [hfirst]
    show sent ++ stopReplies (f.machine.control.notices ++ d₁.told) = _
    rw [stopReplies_append, hf, List.nil_append]
  have hanswers : f.outgoing ++ (d₁.append d₂).answers = sent ++ d₂.answers :=
    (List.append_assoc _ _ _).symm
  have hcollected : (d₂.machine.behind
        (othersOf (f.machine.control.notices ++ d₁.told) ++ d₂.told)).collected =
      (d₂.machine.behind (f.machine.control.notices ++ (d₁.told ++ d₂.told))).collected := by
    rw [Machine.collected_behind, List.append_assoc]
  by_cases hgoes₂ : d₂.goesOn = true
  · have honce : once = _ := settled_of_goesOn f (d := d₁.append d₂) hgoes₂
    have htwice : twice = _ := settled_of_goesOn (f.settled d₁) hgoes₂
    have htold : stopReplies (f.machine.control.notices ++ (d₁.append d₂).told ++
          (d₁.append d₂).machine.control.notices) =
        stopReplies d₁.told ++ stopReplies d₂.told := by
      show stopReplies (_ ++ (d₁.told ++ d₂.told) ++ []) = _
      rw [List.append_nil, stopReplies_append, stopReplies_append, hf, List.nil_append]
    rw [hanswers, htold] at honce
    rw [hnotices, hcollected, hd₂, List.append_nil, stopReplies_append, stopReplies_othersOf,
      List.nil_append, hsent] at htwice
    rw [if_pos hgoes₂, if_pos hgoes₂, honce, htwice]
    exact ⟨rfl, rfl, rfl, rfl⟩
  · have honce : once = _ := settled_of_ended f (d := d₁.append d₂) hgoes₂
    have htwice : twice = _ := settled_of_ended (f.settled d₁) hgoes₂
    rw [hanswers] at honce
    rw [hnotices, hcollected, hsent] at htwice
    rw [if_neg hgoes₂, if_neg hgoes₂, List.append_nil, List.append_nil, honce, htwice]
    exact ⟨rfl, rfl, rfl, rfl⟩

omit [DeviceAccess δ] [RegisterCodec] in
theorem hasIncoming_of_read {s : Server δ} {r : Packet.Reader}
    (hs : s.session = some { reader := r }) : s.hasIncoming = false := by
  unfold hasIncoming
  rw [hs]
  rfl

theorem hasIncoming_serve {s : Server δ} {r : Packet.Reader}
    (hs : s.session = some { reader := r }) {data : List Byte}
    (hlength : data.length ≤ pollSize) : (s.serve data).hasIncoming = false := by
  by_cases hdata : data = []
  · rw [hdata, serve_nil (hasIncoming_of_read hs), hasIncoming_of_read hs]
  · rw [serve_eq hs hdata hlength]
    exact hasIncoming_settled _ _

section

variable {s : Server δ} {r : Packet.Reader} {b₁ b₂ : List Byte}

/-- Nothing is read once the session has ended. -/
theorem serve_append_of_ended (hs : s.session = some { reader := r }) (h₁ : b₁ ≠ [])
    (hlength : (b₁ ++ b₂).length ≤ pollSize) (hends : ¬(s.machine.deal r b₁).goesOn = true) :
    s.serve (b₁ ++ b₂) = (s.serve b₁).serve b₂ := by
  have hlength₁ : b₁.length ≤ pollSize := by
    rw [List.length_append] at hlength
    omega
  have hnone : (s.serve b₁).session = none := by
    rw [serve_eq hs h₁ hlength₁, settled_of_ended _ hends]
  rw [serve_of_none hnone, serve_eq hs h₁ hlength₁,
    serve_eq hs (List.append_ne_nil_of_left_ne_nil h₁ b₂) hlength, Machine.deal_append,
    if_neg hends]

/-- What two polls leave and what one does, where the session goes on in between. -/
theorem serve_append_of_goesOn (hs : s.session = some { reader := r }) (h₁ : b₁ ≠ [])
    (h₂ : b₂ ≠ []) (hlength : (b₁ ++ b₂).length ≤ pollSize)
    (hgoes : (s.machine.deal r b₁).goesOn = true) :
    let d₁ := s.machine.deal r b₁
    let d₂ := d₁.machine.deal d₁.reader b₂
    let once := s.serve (b₁ ++ b₂)
    let twice := (s.serve b₁).serve b₂
    let sent := s.flush.2.outgoing ++ d₁.answers
    once.machine = twice.machine ∧ once.session = twice.session ∧
    once.outgoing = sent ++ d₂.answers ++
      (if d₂.goesOn then stopReplies d₁.told ++ stopReplies d₂.told else []) ∧
    twice.outgoing = sent ++ stopReplies d₁.told ++ d₂.answers ++
      (if d₂.goesOn then stopReplies d₂.told else []) := by
  intro d₁ d₂ once twice sent
  have hlengths : b₁.length ≤ pollSize ∧ b₂.length ≤ pollSize := by
    rw [List.length_append] at hlength
    omega
  have hfirst := settled_of_goesOn s.flush.2 hgoes
  have hsession : (s.flush.2.settled d₁).session = some { reader := d₁.reader } := by
    rw [hfirst]
  have hmachine : (s.flush.2.settled d₁).machine.deal d₁.reader b₂ = d₂ := by
    rw [hfirst]
    rfl
  have hflushed : (s.flush.2.settled d₁).flush.2 = s.flush.2.settled d₁ := by
    unfold settled
    rw [if_pos hgoes, flush_flush]
  have honce : once = s.flush.2.settled (d₁.append d₂) := by
    show s.serve (b₁ ++ b₂) = _
    rw [serve_eq hs (List.append_ne_nil_of_left_ne_nil h₁ b₂) hlength, Machine.deal_append,
      if_pos hgoes]
  have htwice : twice = (s.flush.2.settled d₁).settled d₂ := by
    show (s.serve b₁).serve b₂ = _
    rw [serve_eq hs h₁ hlengths.1, serve_eq hsession h₂ hlengths.2, hflushed, hmachine]
  have hquiet : stopReplies s.flush.2.machine.control.notices = [] :=
    stopReplies_othersOf s.machine.control.notices
  rw [honce, htwice]
  exact settled_settled hquiet s.machine r b₁ b₂ hgoes

/-- Where one of the polls has nothing to read, or nobody to read from, there is no cut. -/
theorem serve_append_of_one_poll (hs : s.session = some { reader := r })
    (hlength : (b₁ ++ b₂).length ≤ pollSize)
    (hno : b₁ = [] ∨ b₂ = [] ∨ (s.machine.deal r b₁).goesOn = false) :
    s.serve (b₁ ++ b₂) = (s.serve b₁).serve b₂ := by
  by_cases h₁ : b₁ = []
  · rw [h₁, serve_nil (hasIncoming_of_read hs), List.nil_append]
  · rcases hno with h | rfl | hends
    · exact absurd h h₁
    · rw [List.append_nil] at hlength ⊢
      rw [serve_nil (hasIncoming_serve hs hlength)]
    · exact serve_append_of_ended hs h₁ hlength (by rw [hends]; exact Bool.false_ne_true)

/-- **Cuts move the answers that tell of stops, and nothing else.**  However the client's bytes
are cut, the computer and the session end up the same.  What is sent is the same as well, but
for the answers to notices that the first bytes gave rise to: when the bytes are cut these come
before the answers to the second bytes, and otherwise after them, or not at all if the session
has ended.  So without an interrupt among the first bytes there is no difference. -/
theorem cuts_move_stop_replies {s : Server δ} {r : Packet.Reader}
    (hs : s.session = some { reader := r }) {b₁ b₂ : List Byte}
    (hlength : (b₁ ++ b₂).length ≤ 4096) :
    let d₁ := s.machine.deal r b₁
    let d₂ := d₁.machine.deal d₁.reader b₂
    let once := s.serve (b₁ ++ b₂)
    let twice := (s.serve b₁).serve b₂
    once.machine = twice.machine ∧ once.session = twice.session ∧
    (b₁ ≠ [] → b₂ ≠ [] → d₁.goesOn = true →
      let sent := s.flush.2.outgoing ++ d₁.answers
      once.outgoing = sent ++ d₂.answers ++
        (if d₂.goesOn then stopReplies d₁.told ++ stopReplies d₂.told else []) ∧
      twice.outgoing = sent ++ stopReplies d₁.told ++ d₂.answers ++
        (if d₂.goesOn then stopReplies d₂.told else [])) ∧
    (b₁ = [] ∨ b₂ = [] ∨ d₁.goesOn = false ∨ stopReplies d₁.told = [] → once = twice) ∧
    (Packet.Event.interrupt ∉ (r.feedAll b₁).1 → once = twice) := by
  intro d₁ d₂ once twice
  by_cases honePoll : b₁ = [] ∨ b₂ = [] ∨ d₁.goesOn = false
  · have hsame : once = twice := serve_append_of_one_poll hs hlength honePoll
    refine ⟨congrArg machine hsame, congrArg session hsame, ?_, fun _ => hsame, fun _ => hsame⟩
    intro h₁ h₂ hgoes
    rcases honePoll with h | h | h
    · exact absurd h h₁
    · exact absurd h h₂
    · rw [hgoes] at h
      cases h
  · rw [not_or, not_or, Bool.not_eq_false] at honePoll
    obtain ⟨h₁, h₂, hgoes⟩ := honePoll
    obtain ⟨hmachine, hsession, honce, htwice⟩ := serve_append_of_goesOn hs h₁ h₂ hlength hgoes
    have hsame (htold : stopReplies d₁.told = []) : once = twice := by
      refine eq_of_parts hmachine hsession ?_
      rw [honce, htwice, htold, List.append_nil, List.nil_append]
    refine ⟨hmachine, hsession, fun _ _ _ => ⟨honce, htwice⟩, ?_, ?_⟩
    · rintro (h | h | h | h)
      · exact absurd h h₁
      · exact absurd h h₂
      · rw [hgoes] at h
        cases h
      · exact hsame h
    · intro hevents
      refine hsame ?_
      rw [Machine.told_deal hevents]
      rfl

end

end

/-- A question, an interrupt that stops the standard computer, and another question that is cut
before its end: the second answer and the one to the interrupt change places. -/
theorem cuts_move_stop_replies_question :
    let connected := ({ machine := Machine.fresh {} ({} : Devices) } : Server Devices).connect
    let s := { connected with machine := connected.machine.go }
    let b₁ := Text.ascii "$?#3f" ++ [Packet.interrupt] ++ Text.ascii "$?"
    let b₂ := Text.ascii "#3f"
    let once := s.serve (b₁ ++ b₂)
    let twice := (s.serve b₁).serve b₂
    once.machine = twice.machine ∧ once.session = twice.session ∧
    once.outgoing = Text.ascii "+$S05#B8+$S05#B8$S02#B5" ∧
    twice.outgoing = Text.ascii "+$S05#B8$S02#B5+$S05#B8" := by
  intro connected s b₁ b₂ once twice
  have hsession : s.session = some { reader := .outside } := rfl
  have hlength : (b₁ ++ b₂).length ≤ 4096 := by decide
  have hgoes : (s.machine.deal .outside b₁).goesOn = true := by decide +kernel
  obtain ⟨hmachine, hsame, hmoved, -, -⟩ := cuts_move_stop_replies hsession hlength
  obtain ⟨honce, htwice⟩ := hmoved (by decide) (by decide) hgoes
  refine ⟨hmachine, hsame, honce.trans ?_, htwice.trans ?_⟩
  · decide +kernel
  · decide +kernel

/-- An interrupt that stops the running computer is answered before a question that is read
later, and after one that is read with it. -/
theorem stop_reply_after_answer :
    let connected := ({ machine := Machine.fresh {} ({} : Devices) } : Server Devices).connect
    let s := { connected with machine := connected.machine.go }
    s.session = some {} ∧ s.machine.control.isRunning = true ∧
    (s.serve ([Packet.interrupt] ++ Text.ascii "$?#3f")).outgoing =
      Text.ascii "+$S05#B8$S02#B5" ∧
    ((s.serve [Packet.interrupt]).serve (Text.ascii "$?#3f")).outgoing =
      Text.ascii "$S02#B5+$S05#B8" := by
  intro connected s
  refine ⟨rfl, rfl, ?_, ?_⟩
  · decide +kernel
  · decide +kernel

end Server

end HomeComputer

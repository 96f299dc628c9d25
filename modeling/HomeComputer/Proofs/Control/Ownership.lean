/-
A debug session leaves breakpoints as their owners set them.

A session that inserts a breakpoint where its owner has one takes hold of it and arms it, and
the owner may go on setting it meanwhile.  When the session lets go the owner's setting has to
come back, whatever was asked in between and however often the session inserted.

Two invariants of a single entry carry this.  `Settled` holds of every breakpoint after every
history: it is kept under its own address, a session's own breakpoint is held, and one that is
not held is set as its owner set it.  The last part is what makes a first claim right, which
saves the setting that it finds.  `OwnedAs` follows one breakpoint from the request that made
it and says that the owner's last setting is the one that is saved.
-/
import HomeComputer.Proofs.Control.Requests

namespace HomeComputer

namespace Breakpoint

/-! ### What holds of every breakpoint -/

/-- What holds of every breakpoint, kept at the address `addr`. -/
structure Settled (addr : Word) (b : Breakpoint) : Prop where
  /-- It is kept under its own address. -/
  addr : b.addr = addr
  /-- A debug session holds what it made. -/
  held_of_debugger : b.origin = .debugger → b.held = true
  /-- What nobody holds is set as its owner set it. -/
  enabled_of_not_held : b.held = false → b.enabled = b.ownEnabled

theorem settled_make (addr : Word) (name : Option String) (origin : Origin) :
    (make addr name origin).Settled addr := by
  refine ⟨rfl, ?_, fun _ => rfl⟩
  rintro rfl
  rfl

variable {addr : Word} {b b' : Breakpoint}

theorem settled_claim (hb : b.Settled addr) : b.claim.Settled addr := by
  refine ⟨hb.addr, fun _ => rfl, ?_⟩
  intro hheld
  cases hheld

theorem settled_setEnabled (hb : b.Settled addr) (enabled : Bool) :
    (b.setEnabled enabled).Settled addr :=
  ⟨hb.addr, hb.held_of_debugger, fun _ => rfl⟩

/-- What a debug session does not hold it leaves alone. -/
theorem letGo_of_not_held (hheld : b.held = false) : b.letGo = some b := by
  unfold letGo
  rw [hheld]
  rfl

theorem letGo_of_local (hheld : b.held = true) (horigin : b.origin = .local) :
    b.letGo = some { b with held := false, enabled := b.ownEnabled } := by
  unfold letGo release
  rw [if_pos hheld, horigin]

theorem letGo_of_debugger (hheld : b.held = true) (horigin : b.origin = .debugger) :
    b.letGo = none := by
  unfold letGo release
  rw [if_pos hheld, horigin]

theorem settled_letGo (hb : b.Settled addr) (hgo : b.letGo = some b') : b'.Settled addr := by
  cases hheld : b.held with
  | false =>
      rw [letGo_of_not_held hheld] at hgo
      obtain rfl := Option.some.inj hgo
      exact hb
  | true =>
      cases horigin : b.origin with
      | debugger =>
          rw [letGo_of_debugger hheld horigin] at hgo
          cases hgo
      | «local» =>
          rw [letGo_of_local hheld horigin] at hgo
          obtain rfl := Option.some.inj hgo
          refine ⟨hb.addr, ?_, fun _ => rfl⟩
          intro hdebugger
          cases horigin.symm.trans hdebugger

/-! ### What holds of one that its owner made -/

/-- The breakpoint at `addr` that its owner made under this name and set last to `setting`. -/
structure OwnedAs (addr : Word) (name : Option String) (setting : Bool) (b : Breakpoint) :
    Prop where
  addr : b.addr = addr
  name : b.name = name
  origin : b.origin = .local
  /-- The setting that comes back. -/
  ownEnabled : b.ownEnabled = setting
  /-- Until somebody takes hold of it, it is set that way. -/
  enabled_of_not_held : b.held = false → b.enabled = setting

/-- What is left of an owner's breakpoint when it is let go of. -/
def restored (addr : Word) (name : Option String) (setting : Bool) : Breakpoint :=
  { addr, enabled := setting, name, origin := .local, held := false, ownEnabled := setting }

variable {name : Option String} {setting : Bool}

theorem ownedAs_make (addr : Word) (name : Option String) :
    (make addr name .local).OwnedAs addr name true :=
  ⟨rfl, rfl, rfl, rfl, fun _ => rfl⟩

/-- A first claim saves the setting it finds, which is the owner's; a later one saves
nothing. -/
theorem ownedAs_claim (hb : b.OwnedAs addr name setting) : b.claim.OwnedAs addr name setting := by
  refine ⟨hb.addr, hb.name, hb.origin, ?_, ?_⟩
  · show (if b.held then b.ownEnabled else b.enabled) = setting
    cases hheld : b.held with
    | false => exact hb.enabled_of_not_held hheld
    | true => exact hb.ownEnabled
  · intro hheld
    cases hheld

theorem ownedAs_setEnabled (hb : b.OwnedAs addr name setting) (enabled : Bool) :
    (b.setEnabled enabled).OwnedAs addr name enabled :=
  ⟨hb.addr, hb.name, hb.origin, rfl, fun _ => rfl⟩

/-- One that nobody holds is as its owner made and set it. -/
theorem eq_restored (hb : b.OwnedAs addr name setting) (hheld : b.held = false) :
    b = restored addr name setting := by
  obtain ⟨a, enabled, _, _, held, own⟩ := b
  obtain ⟨rfl, rfl, rfl, rfl, henabled⟩ := hb
  obtain rfl : held = false := hheld
  obtain rfl : enabled = own := henabled rfl
  rfl

/-- Letting go of an owner's breakpoint brings back all that its owner said of it. -/
theorem letGo_of_ownedAs (hb : b.OwnedAs addr name setting) :
    b.letGo = some (restored addr name setting) := by
  cases hheld : b.held with
  | false => rw [letGo_of_not_held hheld, ← eq_restored hb hheld]
  | true =>
      obtain ⟨rfl, rfl, horigin, rfl, -⟩ := hb
      rw [letGo_of_local hheld horigin]
      unfold restored
      rw [← horigin]

theorem ownedAs_restored (addr : Word) (name : Option String) (setting : Bool) :
    (restored addr name setting).OwnedAs addr name setting :=
  ⟨rfl, rfl, rfl, rfl, fun _ => rfl⟩

end Breakpoint

/-! ### What a request keeps -/

namespace Request

/-- The setting that a request gives the breakpoint at an address, if it gives it one. -/
def setting? (addr : Word) : Request → Option Bool
  | enableBreakpoint a enabled => if a = addr then some enabled else none
  | _ => none

/-- The request does not take an owner's breakpoint at the address away. -/
def Spares (addr : Word) : Request → Prop
  | removeBreakpoint a => a ≠ addr
  | clearBreakpoints origin => origin = some .debugger
  | _ => True

/-- Every request leaves a settled breakpoint, if it leaves one. -/
theorem settled_entry (r : Request) {addr : Word} {e : Option Breakpoint}
    (he : ∀ b, e = some b → b.Settled addr) :
    ∀ b, r.entry addr e = some b → b.Settled addr := by
  -- A request about one address leaves the entry of any other as it is.
  have helsewhere {a : Word} {e' : Option Breakpoint} (he' : ∀ b, e' = some b → b.Settled addr)
      (b : Breakpoint) (hb : (if a = addr then e' else e) = some b) : b.Settled addr := by
    by_cases ha : a = addr
    · rw [if_pos ha] at hb
      exact he' b hb
    · rw [if_neg ha] at hb
      exact he b hb
  cases r with
  | addBreakpoint a name origin =>
      refine helsewhere ?_
      intro b hb
      obtain rfl := Option.some.inj hb
      cases e with
      | none => exact Breakpoint.settled_make addr name origin
      | some b₀ => exact he b₀ rfl
  | debuggerInsert a =>
      refine helsewhere ?_
      intro b hb
      obtain rfl := Option.some.inj hb
      cases e with
      | none => exact Breakpoint.settled_make addr none .debugger
      | some b₀ => exact Breakpoint.settled_claim (he b₀ rfl)
  | debuggerRemove a =>
      refine helsewhere ?_
      intro b hb
      obtain ⟨b₀, hb₀, hgo⟩ := Option.bind_eq_some_iff.mp hb
      exact Breakpoint.settled_letGo (he b₀ hb₀) hgo
  | enableBreakpoint a enabled =>
      refine helsewhere ?_
      intro b hb
      obtain ⟨b₀, hb₀, rfl⟩ := Option.map_eq_some_iff.mp hb
      exact Breakpoint.settled_setEnabled (he b₀ hb₀) enabled
  | removeBreakpoint a =>
      refine helsewhere ?_
      intro b hb
      cases hb
  | clearBreakpoints origin =>
      intro b hb
      exact he b (Option.filter_eq_some_iff.mp hb).1
  | resetSession =>
      intro b hb
      obtain ⟨b₀, hb₀, hgo⟩ := Option.bind_eq_some_iff.mp hb
      exact Breakpoint.settled_letGo (he b₀ hb₀) hgo
  | setBreakpointsEnabled _ | go | stepInto | halt _ _ | shouldBreak _ | retired | listen _
  | unlisten | collect _ => exact he

/-- A request that does not take an owner's breakpoint away leaves it the owner's, with the
setting that the request gives it, if it gives it one. -/
theorem ownedAs_entry {r : Request} {addr : Word} (hr : r.Spares addr) {name : Option String}
    {setting : Bool} {b : Breakpoint} (hb : b.OwnedAs addr name setting) :
    ∃ b', r.entry addr (some b) = some b' ∧
      b'.OwnedAs addr name ((r.setting? addr).getD setting) := by
  cases r with
  | addBreakpoint a _ _ =>
      refine ⟨b, ?_, hb⟩
      simp [entry]
  | debuggerInsert a =>
      by_cases ha : a = addr
      · exact ⟨b.claim, if_pos ha, Breakpoint.ownedAs_claim hb⟩
      · exact ⟨b, if_neg ha, hb⟩
  | debuggerRemove a =>
      by_cases ha : a = addr
      · refine ⟨.restored addr name setting, ?_, Breakpoint.ownedAs_restored addr name setting⟩
        exact (if_pos ha).trans (Breakpoint.letGo_of_ownedAs hb)
      · exact ⟨b, if_neg ha, hb⟩
  | enableBreakpoint a enabled =>
      by_cases ha : a = addr
      · refine ⟨b.setEnabled enabled, if_pos ha, ?_⟩
        simp only [setting?, if_pos ha]
        exact Breakpoint.ownedAs_setEnabled hb enabled
      · refine ⟨b, if_neg ha, ?_⟩
        simp only [setting?, if_neg ha]
        exact hb
  | removeBreakpoint a => exact ⟨b, if_neg hr, hb⟩
  | clearBreakpoints origin =>
      obtain rfl : origin = some .debugger := hr
      refine ⟨b, ?_, hb⟩
      simp [entry, Breakpoints.Cleared, hb.origin]
  | resetSession =>
      exact ⟨.restored addr name setting, Breakpoint.letGo_of_ownedAs hb,
        Breakpoint.ownedAs_restored addr name setting⟩
  | setBreakpointsEnabled _ | go | stepInto | halt _ _ | shouldBreak _ | retired | listen _
  | unlisten | collect _ => exact ⟨b, rfl, hb⟩

end Request

/-! ### What a history keeps -/

namespace Controller

/-- The owner's last setting of the breakpoint at an address, in a history that starts with
the given one. -/
def lastSetting (addr : Word) (requests : List Request) (first : Bool) : Bool :=
  (requests.filterMap (·.setting? addr)).getLastD first

theorem lastSetting_cons (addr : Word) (r : Request) (requests : List Request) (first : Bool) :
    lastSetting addr (r :: requests) first =
      lastSetting addr requests ((r.setting? addr).getD first) := by
  unfold lastSetting
  cases h : r.setting? addr with
  | none => rw [List.filterMap_cons_none h, Option.getD_none]
  | some setting => rw [List.filterMap_cons_some h, List.getLastD_cons, Option.getD_some]

/-- Every breakpoint of a controller is settled. -/
def Settled (c : Controller) : Prop := ∀ addr b, c.breakpoint? addr = some b → b.Settled addr

theorem settled_serveAll {c : Controller} (hc : c.Settled) (requests : List Request) :
    (c.serveAll requests).Settled := by
  induction requests generalizing c with
  | nil => exact hc
  | cons r requests ih =>
      refine ih ?_
      intro addr b hb
      rw [breakpoint?_serve] at hb
      exact r.settled_entry (hc addr) b hb

theorem ownedAs_serveAll {c : Controller} {addr : Word} {name : Option String} {setting : Bool}
    {b : Breakpoint} (hc : c.breakpoint? addr = some b) (hb : b.OwnedAs addr name setting)
    (requests : List Request) (hspares : ∀ r ∈ requests, r.Spares addr) :
    ∃ b', (c.serveAll requests).breakpoint? addr = some b' ∧
      b'.OwnedAs addr name (lastSetting addr requests setting) := by
  induction requests generalizing c setting b with
  | nil => exact ⟨b, hc, hb⟩
  | cons r requests ih =>
      obtain ⟨b', hentry, hb'⟩ :=
        Request.ownedAs_entry (hspares r List.mem_cons_self) hb
      have hserved : (c.serve r).breakpoint? addr = some b' := by
        rw [breakpoint?_serve, hc, hentry]
      rw [lastSetting_cons]
      exact ih hserved hb' fun q hq => hspares q (List.mem_cons_of_mem r hq)

/-! ### Insertion and removal -/

/-- A debug session that inserts and removes where it held nothing has changed nothing.  The
owner's breakpoint comes back as it was because what nobody held was set as the owner set it. -/
theorem claimAt_releaseAt {t : Breakpoints} {addr : Word}
    (ht : ∀ b, t[addr]? = some b → b.Settled addr) (hheld : t.heldAt addr = false) :
    (t.claimAt addr).releaseAt addr = t := by
  apply Std.ExtTreeMap.ext_getElem?
  intro k
  rw [Breakpoints.getElem?_releaseAt, Breakpoints.getElem?_claimAt]
  by_cases hk : addr = k
  · subst hk
    rw [if_pos rfl, if_pos rfl]
    cases h : t[addr]? with
    | none => exact Breakpoint.letGo_of_debugger rfl rfl
    | some b =>
        have hfree : b.held = false := by
          unfold Breakpoints.heldAt at hheld
          rw [h] at hheld
          exact hheld
        have hsettled := ht b h
        have horigin : b.origin = .local := by
          cases horigin : b.origin with
          | «local» => rfl
          | debugger => cases hfree.symm.trans (hsettled.held_of_debugger horigin)
        have howned : b.OwnedAs addr b.name b.ownEnabled :=
          ⟨hsettled.addr, rfl, horigin, rfl, hsettled.enabled_of_not_held⟩
        calc b.claim.letGo
            = some (.restored addr b.name b.ownEnabled) :=
              Breakpoint.letGo_of_ownedAs (Breakpoint.ownedAs_claim howned)
          _ = b.letGo := (Breakpoint.letGo_of_ownedAs howned).symm
          _ = some b := Breakpoint.letGo_of_not_held hfree
  · rw [if_neg hk, if_neg hk]

theorem heldAt_claimAt (t : Breakpoints) (addr : Word) : (t.claimAt addr).heldAt addr = true := by
  unfold Breakpoints.heldAt
  rw [Breakpoints.getElem?_claimAt, if_pos rfl]
  cases t[addr]? <;> rfl

/-- A breakpoint is made where there was none, and is new. -/
theorem breakpoint?_of_addBreakpoint {c made : Controller} {addr : Word} {name : Option String}
    {origin : Origin} (hmade : c.addBreakpoint addr name origin = .ok made) :
    made.breakpoint? addr = some (.make addr name origin) := by
  unfold addBreakpoint at hmade
  cases h : c.breakpoint? addr with
  | some b =>
      rw [h] at hmade
      cases hmade
  | none =>
      rw [h] at hmade
      obtain rfl := Except.ok.inj hmade
      rw [breakpoint?_insert, if_pos rfl]

/-- **A debug session leaves breakpoints as their owners set them.**  After any history of a
new controller every breakpoint is settled.  One that its owner made in this history comes
back, whenever a session lets go of it, with its name and as its owner set it last, if nobody
took it away meanwhile.  And inserting and removing where the session held nothing changes
nothing at all. -/
theorem sessions_keep_settings (history : List Request) :
    let c := ({} : Controller).serveAll history
    (∀ addr b, c.breakpoint? addr = some b →
      b.addr = addr ∧ (b.origin = .debugger → b.held = true) ∧
        (b.held = false → b.enabled = b.ownEnabled)) ∧
    (∀ addr name made requests, c.addBreakpoint addr name .local = .ok made →
      (∀ r ∈ requests, r.Spares addr) →
      ∀ release, release = .debuggerRemove addr ∨ release = .resetSession →
        (made.serveAll (requests ++ [release])).breakpoint? addr = some {
          addr
          name
          origin := .local
          held := false
          enabled := lastSetting addr requests true
          ownEnabled := lastSetting addr requests true }) ∧
    ∀ addr, c.breakpoints.heldAt addr = false →
      (c.debuggerInsert addr).debuggerRemove addr = (true, c) := by
  intro c
  have hc : c.Settled := by
    refine settled_serveAll (c := {}) ?_ history
    intro addr b hb
    cases hb
  refine ⟨?_, ?_, ?_⟩
  · intro addr b hb
    have hsettled := hc addr b hb
    exact ⟨hsettled.addr, hsettled.held_of_debugger, hsettled.enabled_of_not_held⟩
  · intro addr name made requests hmade hspares release hrelease
    obtain ⟨b, hb, howned⟩ := ownedAs_serveAll (breakpoint?_of_addBreakpoint hmade)
      (Breakpoint.ownedAs_make addr name) requests hspares
    have hgo : release.entry addr (some b) = b.letGo := by
      rcases hrelease with rfl | rfl
      · exact if_pos rfl
      · rfl
    unfold serveAll at hb ⊢
    rw [List.foldl_append]
    show (serve _ release).breakpoint? addr = _
    rw [breakpoint?_serve, hb, hgo]
    exact Breakpoint.letGo_of_ownedAs howned
  · intro addr hheld
    have htable : (c.breakpoints.claimAt addr).releaseAt addr = c.breakpoints :=
      claimAt_releaseAt (hc addr) hheld
    unfold debuggerRemove debuggerInsert
    simp only [htable, heldAt_claimAt]

/-- A breakpoint that its owner switched off is inserted twice, hit, switched on and off and let
go of, and is off again, while the session's own breakpoint of an earlier session is still
there; and inserting and removing over it changes nothing. -/
theorem sessions_keep_settings_twice :
    let history : List Request := [.debuggerInsert 0x20#32, .go, .shouldBreak 0x20#32]
    let requests : List Request :=
      [.enableBreakpoint 0x10#32 false, .debuggerInsert 0x10#32, .debuggerInsert 0x10#32, .go,
       .shouldBreak 0x10#32, .enableBreakpoint 0x10#32 true, .clearBreakpoints (some .debugger),
       .enableBreakpoint 0x10#32 false, .debuggerInsert 0x10#32]
    let c := ({} : Controller).serveAll history
    let made := c.serve (.addBreakpoint 0x10#32 (some "loop") .local)
    (∃ b, c.breakpoint? 0x20#32 = some b ∧ b.addr = 0x20#32) ∧
    (made.serveAll (requests ++ [.debuggerRemove 0x10#32])).breakpoint? 0x10#32 = some {
      addr := 0x10#32
      name := some "loop"
      origin := .local
      held := false
      enabled := false
      ownEnabled := false } ∧
    (c.debuggerInsert 0x10#32).debuggerRemove 0x10#32 = (true, c) := by
  intro history requests c made
  refine ⟨?_, ?_, ?_⟩
  · have hb : c.breakpoint? 0x20#32 = some (.make 0x20#32 none .debugger) := by decide +kernel
    exact ⟨_, hb, ((sessions_keep_settings history).1 _ _ hb).1⟩
  · have hmade : c.addBreakpoint 0x10#32 (some "loop") .local = .ok made := rfl
    have hspares : ∀ r ∈ requests, r.Spares 0x10#32 := by simp [requests, Request.Spares]
    have hlast : lastSetting 0x10#32 requests true = false := by decide
    have hreleased := (sessions_keep_settings history).2.1 _ _ _ _ hmade hspares
      (.debuggerRemove 0x10#32) (Or.inl rfl)
    rwa [hlast] at hreleased
  · exact (sessions_keep_settings history).2.2 0x10#32 (by decide +kernel)

end Controller

end HomeComputer

/-
The list of instruction sets is a set.

A hart asks its sets in the order in which they were added, and the first that claims a word
decides.  Since no two sets claim the same word, the first is the only one: what a word does
depends on which sets the hart has and not on their order or on how often one was added, and a
set added later has nothing to say about a word that did something before.

`SameSets` relates two harts that differ in that way only.  A step keeps it, and so does
everything else that happens to a hart, so that they stay alike however long they run.  Where no
set claims the word, the step ends in a trap that records it.
-/
import HomeComputer.Memory.WordMemory
import HomeComputer.Proofs.Processor.Exceptions
import HomeComputer.Proofs.Processor.Handlers

namespace HomeComputer

/-! ### Lists of sets -/

namespace Extension

/-- The set has a meaning for the word. -/
def Claims (e : Extension) (w : Word) : Prop := (e.decode? w).isSome

instance (e : Extension) (w : Word) : Decidable (e.Claims w) :=
  inferInstanceAs (Decidable ((e.decode? w).isSome = true))

variable {w : Word} {d : Decoded} {sets sets' : List Extension}

/-- What a set claims, it decodes on any hart that has it. -/
theorem decodeBy_eq_some_iff :
    decodeBy sets w = some d ↔ ∃ e ∈ sets, e.decode? w = some d := by
  constructor
  · intro h
    exact List.exists_of_findSome?_eq_some h
  · rintro ⟨e, he, hd⟩
    obtain ⟨op, hop, rfl⟩ := Option.map_eq_some_iff.mp hd
    exact decodeBy_of_claims he hop

theorem isSome_decodeBy_iff : (decodeBy sets w).isSome ↔ ∃ e ∈ sets, e.Claims w := by
  simp only [Claims, Option.isSome_iff_exists, decodeBy_eq_some_iff]
  constructor
  · rintro ⟨d, e, he, hd⟩
    exact ⟨e, he, d, hd⟩
  · rintro ⟨e, he, d, hd⟩
    exact ⟨d, e, he, hd⟩

/-- At most one set claims a word. -/
theorem Claims.unique {e e' : Extension} (h : e.Claims w) (h' : e'.Claims w) : e = e' := by
  obtain ⟨d, hd⟩ := Option.isSome_iff_exists.mp h
  obtain ⟨d', hd'⟩ := Option.isSome_iff_exists.mp h'
  obtain ⟨op, hop, -⟩ := Option.map_eq_some_iff.mp hd
  obtain ⟨op', hop', -⟩ := Option.map_eq_some_iff.mp hd'
  exact eq_of_claims hop hop'

/-- More sets decode what fewer do, and alike. -/
theorem decodeBy_of_subset (hsub : ∀ e ∈ sets, e ∈ sets') (h : decodeBy sets w = some d) :
    decodeBy sets' w = some d := by
  obtain ⟨e, he, hd⟩ := decodeBy_eq_some_iff.mp h
  exact decodeBy_eq_some_iff.mpr ⟨e, hsub e he, hd⟩

/-- Lists with the same members decode alike. -/
theorem decodeBy_congr (hsame : ∀ e, e ∈ sets' ↔ e ∈ sets) (w : Word) :
    decodeBy sets' w = decodeBy sets w := by
  refine Option.ext fun d => ⟨?_, ?_⟩
  · exact decodeBy_of_subset fun e => (hsame e).mp
  · exact decodeBy_of_subset fun e => (hsame e).mpr

end Extension

namespace Hart

/-! ### Fitting a hart -/

/-- The hart with these sets and no others, in the order of the list. -/
def fitted (h : Hart) (sets : List Extension) : Hart :=
  sets.foldl addExtension { h with isa := [] }

theorem foldl_addExtension (h : Hart) (sets : List Extension) :
    sets.foldl addExtension h = { h with isa := h.isa ++ sets } := by
  induction sets generalizing h with
  | nil => rw [List.append_nil]; rfl
  | cons e sets ih =>
      rw [List.foldl_cons, ih]
      simp only [addExtension, List.append_assoc, List.singleton_append]

theorem fitted_eq (h : Hart) (sets : List Extension) : h.fitted sets = { h with isa := sets } := by
  unfold fitted
  rw [foldl_addExtension, List.nil_append]

theorem decode?_fitted (h : Hart) (sets : List Extension) (w : Word) :
    (h.fitted sets).decode? w = Extension.decodeBy sets w := by
  rw [fitted_eq]
  rfl

/-! ### Harts with the same sets -/

/-- The two harts differ at most in the order of their sets and in how often they have each. -/
def SameSets (h g : Hart) : Prop :=
  ∃ sets, (∀ e, e ∈ sets ↔ e ∈ h.isa) ∧ g = { h with isa := sets }

theorem sameSets_fitted (h : Hart) {sets sets' : List Extension}
    (hsame : ∀ e, e ∈ sets' ↔ e ∈ sets) : SameSets (h.fitted sets) (h.fitted sets') := by
  rw [fitted_eq, fitted_eq]
  exact ⟨sets', hsame, rfl⟩

section

variable {h g : Hart}

theorem SameSets.decode? (hsame : SameSets h g) (w : Word) : g.decode? w = h.decode? w := by
  obtain ⟨sets, hmembers, rfl⟩ := hsame
  exact Extension.decodeBy_congr hmembers w

theorem SameSets.setPending (hsame : SameSets h g) (number : Byte) (level : Bool) :
    SameSets (h.setPending number level) (g.setPending number level) := by
  obtain ⟨sets, hmembers, rfl⟩ := hsame
  exact ⟨sets, hmembers, rfl⟩

/-- The list of sets plays no part in completing an instruction. -/
theorem SameSets.complete (hsame : SameSets h g) (next : Word) :
    SameSets (h.complete next) (g.complete next) := by
  obtain ⟨sets, hmembers, rfl⟩ := hsame
  refine ⟨sets, ?_, ?_⟩
  · rw [isa_complete]
    exact hmembers
  · cases hp : h.csr.pending? with
    | none =>
        rw [complete_of_none hp, complete_of_none (h := { h with isa := sets }) hp]
        rfl
    | some line =>
        rw [complete_of_some hp, complete_of_some (h := { h with isa := sets }) hp]
        rfl

variable {β : Type} [Bus β]

theorem SameSets.performWord (hsame : SameSets h g) (raw : Word) (bus : β) :
    g.performWord raw bus = h.performWord raw bus := by
  have hdecode := hsame.decode? raw
  obtain ⟨sets, -, rfl⟩ := hsame
  unfold Hart.performWord
  rw [hdecode]

/-- **Harts with the same sets take the same step.** -/
theorem SameSets.step (hsame : SameSets h g) (bus : β) :
    SameSets (h.step bus).1 (g.step bus).1 ∧ (g.step bus).2 = (h.step bus).2 := by
  have hpc : g.pc = h.pc := by
    obtain ⟨sets, -, rfl⟩ := hsame
    rfl
  have hperformed := hsame.performWord (Access.fetch bus h.pc).1 (Access.fetch bus h.pc).2
  unfold Hart.step
  simp only [hpc, hperformed]
  cases h.performWord (Access.fetch bus h.pc).1 (Access.fetch bus h.pc).2 with
  | completed c =>
      have hadopted : SameSets (h.adopt c) (g.adopt c) := by
        obtain ⟨sets, hmembers, rfl⟩ := hsame
        exact ⟨sets, hmembers, rfl⟩
      exact ⟨hadopted.complete c.next, rfl⟩
  | raised e c =>
      obtain ⟨sets, hmembers, rfl⟩ := hsame
      exact ⟨⟨sets, hmembers, rfl⟩, rfl⟩

/-- They stay alike whatever happens, as long as it happens to both. -/
theorem SameSets.occur {s t : Hart × β} (hsame : SameSets s.1 t.1) (hbus : t.2 = s.2)
    (a : Event β) :
    SameSets (occur s a).1 (occur t a).1 ∧ (Hart.occur t a).2 = (Hart.occur s a).2 := by
  cases a with
  | step =>
      show SameSets (s.1.step s.2).1 (t.1.step t.2).1 ∧ (t.1.step t.2).2 = (s.1.step s.2).2
      rw [hbus]
      exact hsame.step s.2
  | line number level => exact ⟨hsame.setPending number level, hbus⟩
  | outside bus => exact ⟨hsame, rfl⟩

theorem SameSets.occurAll {s t : Hart × β} (hsame : SameSets s.1 t.1) (hbus : t.2 = s.2)
    (history : List (Event β)) :
    SameSets (occurAll s history).1 (occurAll t history).1 ∧
      (Hart.occurAll t history).2 = (Hart.occurAll s history).2 := by
  induction history generalizing s t with
  | nil => exact ⟨hsame, hbus⟩
  | cons a history ih =>
      obtain ⟨hnext, hnextBus⟩ := hsame.occur hbus a
      exact ih hnext hnextBus

/-! ### Words that no set claims -/

/-- **A word that is not decoded is illegal**: the step ends in the handler, with the word and
where it was on record and nothing else changed. -/
theorem step_of_not_decoded {bus : β} (hd : h.decode? (Access.fetch bus h.pc).1 = none) :
    (h.step bus).1.trap = .exception .illegalInstruction ∧
      h.Precise (Access.fetch bus h.pc).1 .illegalInstruction (h.step bus).1 ∧
      (h.step bus).2 = (Access.fetch bus h.pc).2 := by
  have hraised : h.performWord (Access.fetch bus h.pc).1 (Access.fetch bus h.pc).2 =
      .raised .illegalInstruction
        (Context.start h.pc h.registers h.csr (Access.fetch bus h.pc).2) := by
    simp only [Hart.performWord, hd]
  have hprecise := precise_takeTrap h (Access.fetch bus h.pc).1 .illegalInstruction
  rcases step_cases h bus with ⟨c, hcompleted, -⟩ | ⟨e, he, hstep⟩
  · cases hraised.symm.trans hcompleted
  · obtain rfl : Exception.illegalInstruction = e := by
      rw [hraised] at he
      exact (Outcome.raised.inj he).1
    rw [hstep]
    exact ⟨hprecise.trap, hprecise, rfl⟩

/-- **The list of instruction sets is a set.**  A hart with the sets of a list, in any order and
with repetitions, decodes exactly the words that one of them claims, and decodes them like a hart
with the full list.  No two sets claim one word.  So lists with the same members make no
difference to a word or to a whole history, and one more set none to a word that already decoded.
A fetched word that is not decoded is an illegal instruction, recorded as such. -/
theorem instruction_sets_are_sets (h : Hart) (sets : List Extension) (w : Word) :
    (((h.fitted sets).decode? w).isSome ↔ ∃ e ∈ sets, e.Claims w) ∧
    (∀ d, (h.fitted sets).decode? w = some d →
      (h.fitted Extension.full).decode? w = some d) ∧
    (∀ e e' : Extension, e.Claims w → e'.Claims w → e = e') ∧
    (∀ sets', (∀ e, e ∈ sets' ↔ e ∈ sets) →
      (h.fitted sets').decode? w = (h.fitted sets).decode? w ∧
      ∀ (bus : β) (history : List (Event β)),
        let s := Hart.occurAll (h.fitted sets, bus) history
        let s' := Hart.occurAll (h.fitted sets', bus) history
        SameSets s.1 s'.1 ∧ s'.2 = s.2) ∧
    (∀ e d, (h.fitted sets).decode? w = some d →
      ((h.fitted sets).addExtension e).decode? w = some d) ∧
    (∀ bus : β, (Access.fetch bus h.pc).1 = w → (h.fitted sets).decode? w = none →
      let after := ((h.fitted sets).step bus).1
      after.trap = .exception .illegalInstruction ∧ after.csr.mtval = w ∧
        (h.fitted sets).Precise w .illegalInstruction after) := by
  refine ⟨?_, ?_, ?_, ?_, ?_, ?_⟩
  · rw [decode?_fitted]
    exact Extension.isSome_decodeBy_iff
  · intro d hd
    rw [decode?_fitted] at hd ⊢
    exact Extension.decodeBy_full_of_decodeBy hd
  · intro e e'
    exact Extension.Claims.unique
  · intro sets' hsame
    have hfitted := sameSets_fitted h hsame
    refine ⟨hfitted.decode? w, ?_⟩
    intro bus history
    exact SameSets.occurAll (s := (h.fitted sets, bus)) (t := (h.fitted sets', bus)) hfitted rfl
      history
  · intro e d hd
    have hmore : ∀ e' ∈ (h.fitted sets).isa, e' ∈ (h.fitted sets).isa ++ [e] :=
      fun e' => List.mem_append_left [e]
    exact Extension.decodeBy_of_subset hmore hd
  · rintro bus rfl hd after
    have hpc : (h.fitted sets).pc = h.pc := by rw [fitted_eq]
    rw [← hpc] at hd ⊢
    obtain ⟨htrap, hprecise, -⟩ := step_of_not_decoded hd
    exact ⟨htrap, (hprecise.illegalInstruction rfl).2, hprecise⟩

/-- Multiplication added twice, and before the base set: `mul a0, a0, a1` decodes as it does the
other way round and as it does with the control registers added.  Without them an access to one is
illegal. -/
theorem instruction_sets_are_sets_repeated :
    let h : Hart := { csr := { mtvec := 0x40#32 } }
    let bus : WordMemory := ({} : WordMemory).put 0#32 0x30551573#32
    let sets : List Extension := [.m, .i, .m]
    ((h.fitted sets).decode? 0x02b50533#32).isSome ∧
      (h.fitted [.i, .m]).decode? 0x02b50533#32 = (h.fitted sets).decode? 0x02b50533#32 ∧
      (((h.fitted sets).addExtension .zicsr).decode? 0x02b50533#32).isSome ∧
      (Hart.occurAll (h.fitted [.i, .m], bus) [.step, .line 7#8 true, .step]).2 =
        (Hart.occurAll (h.fitted sets, bus) [.step, .line 7#8 true, .step]).2 ∧
      ((h.fitted sets).step bus).1.trap = .exception .illegalInstruction ∧
      ((h.fitted sets).step bus).1.csr.mtval = 0x30551573#32 := by
  intro h bus sets
  have hmembers : ∀ e, e ∈ ([.i, .m] : List Extension) ↔ e ∈ sets := by
    intro e
    cases e <;> decide
  obtain ⟨hiff, -, -, hsame, hadded, -⟩ :=
    instruction_sets_are_sets (β := WordMemory) h sets 0x02b50533#32
  have hsome : ((h.fitted sets).decode? 0x02b50533#32).isSome := hiff.mpr ⟨.m, by decide⟩
  obtain ⟨d, hd⟩ := Option.isSome_iff_exists.mp hsome
  obtain ⟨hdecode, hhistory⟩ := hsame [.i, .m] hmembers
  obtain ⟨-, -, -, -, -, hillegal⟩ :=
    instruction_sets_are_sets (β := WordMemory) h sets 0x30551573#32
  obtain ⟨htrap, hmtval, -⟩ := hillegal bus (by decide +kernel) (by decide)
  refine ⟨hsome, hdecode, ?_, (hhistory bus _).2, htrap, hmtval⟩
  rw [hadded .zicsr d hd]
  rfl

end

end Hart

end HomeComputer

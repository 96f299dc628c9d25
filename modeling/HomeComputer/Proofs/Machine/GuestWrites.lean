/-
What a guest can change.

A step reads memory, to fetch and to load, and writes it if it executes a store, at the bytes of
the range of that store (`Hart.accessed_step`).  So whatever the guest does, the table of regions
and everything in boot stores stay as they were, a byte of RAM changes only in a step that stores
to it, and what is sent to the host is sent by a store to data of the link.

The induction is on the history.  It is carried by the table, which is sound before each step
because it has not changed.
-/
import HomeComputer.Proofs.Machine.NewBreakpoints
import HomeComputer.Proofs.Memory.Footprint
import HomeComputer.Proofs.Processor.Destination
import HomeComputer.Proofs.Processor.Interrupts
import HomeComputer.Proofs.Processor.LoadsAndStores

namespace HomeComputer

/-! ### Steps -/

namespace Hart

/-- The word `raw` stores to the byte at `c`: the hart is fitted with the base set, the word is SB,
SH or SW, and the byte is in its range, which starts where the alignment policy puts the address
that its fields name and wraps round at the end of the address space. -/
def StoresTo (h : Hart) (alignment : Alignment) (raw c : Word) : Prop :=
  Extension.i ∈ h.isa ∧ ∃ width, Manual.Stores raw width ∧ ∃ i < width.bytes,
    c = Word.addressFrom (alignment.start (h.storeAddress raw) width) i

variable {β : Type} [Bus β]

/-- What completes has read the bus, and written the bytes that the word stores to. -/
theorem accessed_performWord {h : Hart} {raw : Word} {b bus : β} {c : Context β}
    (hc : h.performWord raw bus = .completed c)
    (hb : Accessed (h.StoresTo (Bus.alignment bus) raw) b bus) :
    Accessed (h.StoresTo (Bus.alignment bus) raw) b c.bus := by
  obtain ⟨d, hd, hperformed⟩ := exists_of_performWord hc
  obtain ⟨e, he, op, hop, rfl⟩ := Extension.claims_of_decodeBy hd
  have hbus := (delivers_perform op _ _ _ hperformed).1
  cases op with
  | load k =>
      rw [hbus]
      exact hb.load _ k.width
  | store w =>
      obtain ⟨rfl, hstores⟩ := Extension.stores_of_operation? hop
      have hcompletes : h.Completes raw bus _ _ _ := completes_of_stores he bus hstores
      rw [Outcome.completed.inj (hc.symm.trans hcompletes)]
      exact hb.store _ fun i hi => ⟨he, w, hstores, i, hi, rfl⟩
  | lui | auipc | jal | jalr | branch _ | aluImm _ | alu _ | sub | mulDiv _ | csr _ _ | fence
  | fenceI | ecall | ebreak | mret =>
      rw [hbus]
      exact hb

/-- **A step reads memory, and writes the bytes that it stores to.** -/
theorem accessed_step (h : Hart) (bus : β) :
    Accessed (h.StoresTo (Bus.alignment (Access.fetch bus h.pc).2) (Access.fetch bus h.pc).1) bus
      (h.step bus).2 := by
  have hfetched {meant : Word → Prop} : Accessed meant bus (Access.fetch bus h.pc).2 :=
    Accessed.refl.fetch h.pc
  rcases step_cases h bus with ⟨c, hperformed, hstep⟩ | ⟨e, -, hstep⟩
  · rw [hstep]
    exact accessed_performWord hperformed hfetched
  · rw [hstep]
    exact hfetched

end Hart

theorem AddressMap.alignment_fetch {δ : Type} [DeviceAccess δ] (m : AddressMap δ) (pc : Word) :
    (Access.fetch m pc).2.alignment = m.alignment :=
  (written_read (fun _ => False) m pc.aligned).alignment

namespace Machine

section

variable {δ : Type} [DeviceAccess δ]

/-- The action runs an instruction. -/
def Retires (m : Machine δ) : Action → Prop
  | .tick => m.tick.1 = .retired
  | .stepOnce => True
  | .ask _ | .reset => False

/-- The action runs an instruction that stores to the byte at `c`. -/
def Writes (m : Machine δ) (a : Action) (c : Word) : Prop :=
  m.Retires a ∧ m.hart.StoresTo m.map.alignment (Access.fetch m.map m.pc).1 c

/-- Some action of a history does. -/
def WritesAmong (m : Machine δ) : List Action → Word → Prop
  | [], _ => False
  | a :: actions, c => m.Writes a c ∨ (m.act a).WritesAmong actions c

/-- What an action does to memory. -/
theorem accessed_act (m : Machine δ) (a : Action) :
    Accessed (m.Writes a) m.map (m.act a).map := by
  have hstep := m.sampled.accessed_step m.map
  rw [show Bus.alignment (Access.fetch m.map m.sampled.pc).2 = m.map.alignment from
    m.map.alignment_fetch m.pc] at hstep
  have hran (hretires : m.Retires a) : Accessed (m.Writes a) m.map m.stepOnce.map :=
    Accessed.mono hstep fun c hc => ⟨hretires, hc⟩
  cases a with
  | ask r => exact .refl
  | reset => exact .refl
  | stepOnce => exact hran trivial
  | tick =>
      show Accessed _ m.map m.tick.2.map
      obtain ⟨control, ⟨hretired, htick⟩ | ⟨-, htick⟩⟩ := m.exists_tick_eq
      · rw [htick]
        exact hran hretired
      · rw [htick]
        exact .refl

theorem written_act {m : Machine δ} (hm : m.map.Sound) (a : Action) :
    m.map.Written (m.Writes a) (m.act a).map :=
  AddressMap.written_of_accessed hm (m.accessed_act a)

theorem written_actAll {m : Machine δ} (hm : m.map.Sound) (actions : List Action) :
    m.map.Written (m.WritesAmong actions) (m.actAll actions).map := by
  induction actions generalizing m with
  | nil => exact .of_regions _ rfl rfl
  | cons a actions ih =>
      have hfirst := written_act hm a
      have hrest := ih (hm.of_extents hfirst.extents)
      exact (hfirst.mono fun c hc => .inl hc).trans (hrest.mono fun c hc => .inr hc)

end

/-- **Guests change memory by their own stores alone.**  The table is sound, as any is that regions
were added to.  After a history it has the same regions with the same boot stores, and bytes of RAM
that changed are where stores of the history were.  Each action changes bytes of RAM, and what is
shown at an address outside windows, only where the instruction that it runs stores; and it sends
bytes to the host, behind those sent before or after a reset of the link, only if its instruction
stores to the low byte of the link's data. -/
theorem guest_changes_by_stores :
    (∀ {δ : Type} [DeviceAccess δ] (m : Machine δ), m.map.Sound → ∀ actions : List Action,
      m.map.Written (m.WritesAmong actions) (m.actAll actions).map ∧
      ∀ a : Action,
        let before := m.actAll actions
        let after := before.act a
        before.map.Written (before.Writes a) after.map ∧
        ∀ r ∈ before.map.regions, r.backing.kind ≠ .window → ∀ c : Word,
          r.contains c.aligned = true → after.byteAt? c ≠ before.byteAt? c →
            r.backing.kind = .ram ∧ before.Writes a c) ∧
    ∀ (m : Machine Devices) (actions : List Action) (a : Action),
      let before := m.actAll actions
      let after := before.act a
      Devices.Sent (before.Writes a) before.devices after.devices := by
  refine ⟨fun m hm actions => ?_, fun m actions a => ?_⟩
  · have hrun := written_actAll hm actions
    refine ⟨hrun, fun a => ?_⟩
    have hsound := hm.of_extents hrun.extents
    have hstep := written_act hsound a
    exact ⟨hstep, fun r hr hkind c hin hne => hstep.meant_of_peek hsound hr hkind hin hne⟩
  · exact AddressMap.sent_of_accessed ((m.actAll actions).accessed_act a)

/-- After `lui t0, 0x10000` an instruction `sw t1, 2(t0)` runs over the end of RAM into the link:
two bytes of RAM change, and the third is sent. -/
theorem guest_changes_by_stores_straddling :
    let program := ((Store.zeros 8).setWord 0 0x100002b7#32).setWord 1 0x0062a123#32
    let m : Machine Devices := {
      hart := { registers := Registers.zero.set 6#5 0xddccbb41#32 }
      map := {
        regions := [{ start := 0#32, size := 8#32, backing := .boot program },
          Region.ram Devices.linkControl 4#32, Region.window Devices.linkData 0xffc#32]
        devices := {}
        alignment := .split }
      resetPc := 0#32 }
    m.map.Sound ∧
    (m.actAll [.stepOnce]).byteAt? 0x10000003#32 = some 0#8 ∧
      ((m.actAll [.stepOnce]).act .stepOnce).byteAt? 0x10000003#32 = some 0xbb#8 ∧
      (m.actAll [.stepOnce]).Writes .stepOnce 0x10000003#32 ∧
    (m.actAll [.stepOnce]).devices.sent.toList = [] ∧
      ((m.actAll [.stepOnce]).act .stepOnce).devices.sent.toList = [0xcc#8] ∧
      (m.actAll [.stepOnce]).Writes .stepOnce Devices.linkData := by
  intro program m
  have hsound : m.map.Sound := ⟨by decide, by decide⟩
  have hclear : (m.actAll [.stepOnce]).byteAt? 0x10000003#32 = some 0#8 := by decide +kernel
  have hchanged : ((m.actAll [.stepOnce]).act .stepOnce).byteAt? 0x10000003#32 = some 0xbb#8 := by
    decide +kernel
  have hempty : (m.actAll [.stepOnce]).devices.sent.toList = [] := by decide +kernel
  have hsent : ((m.actAll [.stepOnce]).act .stepOnce).devices.sent.toList = [0xcc#8] := by
    decide +kernel
  refine ⟨hsound, hclear, hchanged, ?_, hempty, hsent, ?_⟩
  · have hregion : ∃ r ∈ (m.actAll [.stepOnce]).map.regions, r.backing.kind ≠ .window ∧
        r.contains (Word.aligned 0x10000003#32) = true := by decide +kernel
    obtain ⟨r, hr, hkind, hin⟩ := hregion
    have hram := ((guest_changes_by_stores.1 m hsound [.stepOnce]).2 .stepOnce).2 r hr hkind
      0x10000003#32 hin
    rw [hclear, hchanged] at hram
    exact (hram (by decide)).2
  · obtain ⟨kept, new, hafter, hkept, hnew⟩ := guest_changes_by_stores.2 m [.stepOnce] .stepOnce
    have hnone : kept = [] := by
      rcases hkept with hkept | ⟨hkept, -⟩
      · exact hkept.trans hempty
      · exact hkept
    refine hnew fun hnew => ?_
    rw [hsent, hnone, hnew] at hafter
    cases hafter

end Machine

end HomeComputer

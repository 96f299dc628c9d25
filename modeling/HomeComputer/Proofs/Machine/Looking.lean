/-
Looking disturbs nothing.

There are two ways to the word at an address.  A read is what the hart does, and may take a byte
from a queue; a look is what a debugger does, and has no computer among its results.  The two are
written apart, for the address map as well as for the devices behind it, and agree on what they
show, so a look tells what a read would hand over.  Ranges and texts are made of looks: a range
over the keyboard's cell looks at it for each of its four bytes, and the key still waits.

What a read changes is said field by field (`ReadTakes`).  It moves no region and writes no store,
and takes a byte only from the queue whose cell was read.  Which cell that is depends on where the
windows are, and those stay where they are whatever happens (`Machine.cell?_happenAll`).

The inductions are on histories in which a computer is looked at, with the computer that nobody
looked at beside it.
-/
import HomeComputer.Proofs.Devices.Channels
import HomeComputer.Proofs.Machine.Keyboard

namespace HomeComputer

/-- A read took the byte in front of a queue and answered with it, or with zero if none waited. -/
def TakenFrom (before after : Queue Byte) (answer : Option Word) : Prop :=
  match before.toList with
  | [] => answer = some 0#32 ∧ after.toList = []
  | b :: rest => answer = some (b.setWidth 32) ∧ after.toList = rest

theorem takenFrom_tail (queue : Queue Byte) :
    TakenFrom queue queue.tail (some (Devices.front queue)) := by
  unfold TakenFrom Devices.front
  rw [← Queue.head?_toList, Queue.toList_tail]
  cases queue.toList with
  | nil => exact ⟨rfl, rfl⟩
  | cons b rest => exact ⟨rfl, rfl⟩

namespace AddressMap

/-! ### Words -/

/-- **A look shows what a read would hand over**, and nothing where a read finds nothing. -/
theorem peek_eq_read (m : AddressMap Devices) (addr : Word) : m.peek addr = (m.read addr).1 := by
  unfold peek read
  cases m.lookup addr.aligned with
  | none => rfl
  | some r =>
      cases hstore : r.backing.store? with
      | some s => simp only [hstore]
      | none =>
          simp only [hstore]
          exact m.devices.peek_eq_read addr.aligned

/-! ### What a read takes -/

/-- What reading an address leaves of the map, and what it takes. -/
structure ReadTakes (m : AddressMap Devices) (addr : Word) : Prop where
  /-- No store changes. -/
  regions : (m.read addr).2.regions = m.regions
  alignment : (m.read addr).2.alignment = m.alignment
  sent : (m.read addr).2.devices.sent = m.devices.sent
  buttons : (m.read addr).2.devices.buttons = m.devices.buttons
  /-- The keyboard loses the key that is handed over. -/
  keys : if m.cell? addr = some Devices.keyboardPop then
      TakenFrom m.devices.keys (m.read addr).2.devices.keys (m.read addr).1
    else (m.read addr).2.devices.keys = m.devices.keys
  /-- So does the link. -/
  received : if m.cell? addr = some Devices.linkData then
      TakenFrom m.devices.received (m.read addr).2.devices.received (m.read addr).1
    else (m.read addr).2.devices.received = m.devices.received

theorem regions_read (m : AddressMap Devices) (addr : Word) :
    (m.read addr).2.regions = m.regions ∧ (m.read addr).2.alignment = m.alignment := by
  unfold read
  cases m.lookup addr.aligned with
  | none => exact ⟨rfl, rfl⟩
  | some r =>
      cases hstore : r.backing.store? with
      | some s => simp only [hstore, and_self]
      | none => simp only [hstore, and_self]

theorem readTakes (m : AddressMap Devices) (addr : Word) : m.ReadTakes addr := by
  obtain ⟨hregions, halignment⟩ := m.regions_read addr
  cases hcell : m.cell? addr with
  | none =>
      have hdevices := devices_read_of_none hcell
      have hno (cell : Word) : m.cell? addr ≠ some cell := by
        rw [hcell]
        exact nofun
      refine ⟨hregions, halignment, by rw [hdevices], by rw [hdevices], ?_, ?_⟩
      · rw [if_neg (hno _), hdevices]
      · rw [if_neg (hno _), hdevices]
  | some cell =>
      have hdevices : (m.read addr).2.devices = (m.devices.read cell).2 := by
        rw [read_of_cell hcell]
      have hanswer : (m.read addr).1 = m.devices.peek cell := by
        rw [read_of_cell hcell, m.devices.peek_eq_read]
      have hiff (other : Word) : m.cell? addr = some other ↔ cell = other := by
        rw [hcell, Option.some.injEq]
      refine ⟨hregions, halignment, ?_, ?_, ?_, ?_⟩
      · rw [hdevices, Devices.read_sent]
      · rw [hdevices, Devices.read_buttons]
      · rw [hdevices, hanswer, Devices.read_keys]
        by_cases hpop : cell = Devices.keyboardPop
        · rw [if_pos ((hiff _).mpr hpop), if_pos hpop, hpop]
          exact takenFrom_tail m.devices.keys
        · rw [if_neg (mt (hiff _).mp hpop), if_neg hpop]
      · rw [hdevices, hanswer, Devices.read_received]
        by_cases hdata : cell = Devices.linkData
        · rw [if_pos ((hiff _).mpr hdata), if_pos hdata, hdata]
          exact takenFrom_tail m.devices.received
        · rw [if_neg (mt (hiff _).mp hdata), if_neg hdata]

/-! ### Cells -/

/-- In a map without overlaps, the cells are the aligned addresses of the windows. -/
theorem Sound.cell?_eq_some_iff {δ : Type} {m : AddressMap δ} (hm : m.Sound) {addr cell : Word} :
    m.cell? addr = some cell ↔
      cell = addr.aligned ∧ ∃ e ∈ m.extents, e.kind = .window ∧ e.contains cell = true := by
  rw [AddressMap.cell?_eq_some_iff]
  constructor
  · rintro ⟨⟨r, hlookup, hbacking⟩, rfl⟩
    obtain ⟨hr, hin⟩ := hm.lookup_eq_some_iff.mp hlookup
    refine ⟨rfl, r.extent, List.mem_map_of_mem hr, ?_, hin⟩
    rw [Region.kind_extent, hbacking]
    rfl
  · rintro ⟨rfl, e, he, hkind, hin⟩
    obtain ⟨r, hr, rfl⟩ := List.mem_map.mp he
    refine ⟨⟨r, hm.lookup_eq_some_iff.mpr ⟨hr, hin⟩, ?_⟩, rfl⟩
    cases hbacking : r.backing with
    | window => rfl
    | boot s | ram s =>
        rw [Region.kind_extent, hbacking] at hkind
        cases hkind

end AddressMap

/-! ### Looks -/

/-- A way to look at the computer. -/
inductive Look
  | word (addr : Word)
  | bytes (addr : Word) (len : Nat)
  | text (addr : Word)

/-- What it shows. -/
inductive View
  | word (w : Option Word)
  /-- What there is of a range, or nothing where no room can be made for so long a one. -/
  | bytes (data : Option (List Byte))
  | text (s : Option String)
  deriving DecidableEq

/-- The happening only looks. -/
def Happening.looks {δ : Type} : Happening δ → Bool
  | .access (.peek _) | .access (.readMemory _ _) | .command (.readMemory _ _) => true
  | _ => false

namespace Machine

def look (m : Machine Devices) : Look → View
  | .word addr => .word (m.map.peek addr)
  | .bytes addr len => .bytes (m.readMemory? addr len)
  | .text addr => .text (m.disassembleAt addr)

/-- The byte `i` bytes after an address in the word that a read would hand over. -/
def readByte? (m : Machine Devices) (addr : Word) (i : Nat) : Option Byte :=
  (addr.after? i).bind fun c => (m.map.read c).1.map fun w => w.byte c.lane

/-- What reads of this computer would show, each of them of the computer as it is. -/
def readOut (m : Machine Devices) : Look → View
  | .word addr => .word (m.map.read addr).1
  | .bytes addr len =>
      .bytes (if len ≤ maxRoom then
        some ((stretch (fun i => (m.readByte? addr i).isSome) 0 len).filterMap (m.readByte? addr))
        else none)
  | .text addr =>
      .text (if addr.lane = 0 then (m.map.read addr).1.map (disassemble · addr) else none)

theorem look_eq_readOut (m : Machine Devices) (l : Look) : m.look l = m.readOut l := by
  cases l with
  | word addr => exact congrArg View.word (m.map.peek_eq_read addr)
  | bytes addr len =>
      have hbyte (k : Nat) : (addr.after? k).bind m.byteAt? = m.readByte? addr k := by
        refine congrArg (Option.bind _) (funext fun c => ?_)
        unfold byteAt?
        rw [AddressMap.peek_eq_read]
      have hrange : m.readMemory addr len = _ := readFrom_eq_stretch fun k _ _ => hbyte (0 + k)
      simp only [look, readOut, readMemory?, hrange]
  | text addr =>
      show View.text (m.disassembleAt addr) = _
      unfold disassembleAt
      rw [AddressMap.peek_eq_read]
      rfl

/-! ### Histories that are watched -/

section
variable [RegisterCodec]

/-- Where the computer itself is asked to look, it is as it was. -/
theorem happen_of_looks (m : Machine Devices) {h : Happening Devices} (hlooks : h.looks = true) :
    m.happen h = m := by
  unfold Happening.looks at hlooks
  split at hlooks
  · rfl
  · rfl
  · rfl
  · cases hlooks

theorem happenAll_filter (m : Machine Devices) (history : List (Happening Devices)) :
    m.happenAll (history.filter (!·.looks)) = m.happenAll history := by
  induction history generalizing m with
  | nil => rfl
  | cons h history ih =>
      by_cases hlooks : h.looks = true
      · rw [List.filter_cons_of_neg (by simp [hlooks]), ih]
        exact congrArg (happenAll · history) (m.happen_of_looks hlooks).symm
      · rw [List.filter_cons_of_pos (by simp [hlooks])]
        exact ih (m.happen h)

/-- What is seen in a history with looks among what happens, and the computer after it. -/
def watch (m : Machine Devices) :
    List (Happening Devices ⊕ Look) → List View × Machine Devices
  | [] => ([], m)
  | .inl h :: history => (m.happen h).watch history
  | .inr l :: history => (m.look l :: (m.watch history).1, (m.watch history).2)

/-- The computer after the same history without a look in it, of either sort. -/
def unwatched (m : Machine Devices) (history : List (Happening Devices ⊕ Look)) :
    Machine Devices :=
  m.happenAll ((history.filterMap Sum.getLeft?).filter (!·.looks))

theorem unwatched_eq (m : Machine Devices) (history : List (Happening Devices ⊕ Look)) :
    m.unwatched history = m.happenAll (history.filterMap Sum.getLeft?) :=
  m.happenAll_filter _

theorem watch_snd (m : Machine Devices) (history : List (Happening Devices ⊕ Look)) :
    (m.watch history).2 = m.unwatched history := by
  rw [unwatched_eq]
  induction history generalizing m with
  | nil => rfl
  | cons a history ih =>
      cases a with
      | inl h => exact ih (m.happen h)
      | inr l => exact ih m

/-- The views of two stretches, the second from where the first has led. -/
theorem watch_append (m : Machine Devices) (before after : List (Happening Devices ⊕ Look)) :
    (m.watch (before ++ after)).1 =
      (m.watch before).1 ++ ((m.unwatched before).watch after).1 := by
  rw [unwatched_eq]
  induction before generalizing m with
  | nil => rfl
  | cons a before ih =>
      cases a with
      | inl h => exact ih (m.happen h)
      | inr l => exact congrArg (m.look l :: ·) (ih m)

/-- The standard computer has its cells where they are, whatever happens to it. -/
theorem cell?_happenAll {config : Config} {devices : Devices} {m : Machine Devices}
    (hnew : new config devices = .ok m) (history : List (Happening Devices)) {cell : Word}
    (hcell : (Region.window Devices.windowStart Devices.windowSize).contains cell = true)
    (addr : Word) : (m.happenAll history).map.cell? addr = some cell ↔ addr.aligned = cell := by
  obtain ⟨hsize, rfl⟩ := eq_fresh_of_new hnew
  have hsound := (reachable_fresh hsize devices).sound
  have hextents := extents_happenAll hsound history
  rw [(hsound.of_extents hextents).cell?_eq_some_iff, hextents]
  constructor
  · rintro ⟨rfl, -⟩
    rfl
  · rintro rfl
    exact ⟨rfl, (Region.window Devices.windowStart Devices.windowSize).extent,
      List.mem_cons_of_mem _ List.mem_cons_self, rfl, hcell⟩

/-- **Looking never disturbs, and shows what a read would hand over.**  However often a computer
is looked at while things happen to it, it is in the end as if nobody had looked, and every view is
what reads of the computer that nobody had looked at would show.  A read changes nothing but the
queue whose cell it reads, which loses its first byte to the answer.  On the standard computer that
is the cell at the address, rounded down to a word. -/
theorem looking_never_disturbs :
    (∀ (map : AddressMap Devices) (addr : Word),
      map.peek addr = (map.read addr).1 ∧ map.ReadTakes addr) ∧
    (∀ (m : Machine Devices) (history : List (Happening Devices ⊕ Look)),
      (m.watch history).2 = m.unwatched history) ∧
    (∀ (m : Machine Devices) (before after : List (Happening Devices ⊕ Look)) (l : Look),
      (m.watch (before ++ .inr l :: after)).1 =
        (m.watch before).1 ++ (m.unwatched before).readOut l ::
          ((m.unwatched before).watch after).1) ∧
    ∀ config devices (m : Machine Devices), new config devices = .ok m →
      ∀ (history : List (Happening Devices)) (addr : Word),
        let map := (m.happenAll history).map
        (map.cell? addr = some Devices.keyboardPop ↔ addr.aligned = Devices.keyboardPop) ∧
          (map.cell? addr = some Devices.linkData ↔ addr.aligned = Devices.linkData) := by
  refine ⟨?_, watch_snd, ?_, ?_⟩
  · intro map addr
    exact ⟨map.peek_eq_read addr, map.readTakes addr⟩
  · intro m before after l
    rw [watch_append, ← look_eq_readOut]
    rfl
  · intro config devices m hnew history addr map
    exact ⟨cell?_happenAll hnew history (by decide) addr,
      cell?_happenAll hnew history (by decide) addr⟩

end

/-- Two keys wait.  A range over the keyboard's cells shows the first of them and that there are
two, however often; a read in the middle of the cell takes it. -/
theorem looking_never_disturbs_keyboard :
    let devices : Devices := (({} : Devices).pushKey 0x61#8).pushKey 0x62#8
    let m := fresh {} devices
    let range : Look := .bytes Devices.keyboardPop 8
    new {} devices = .ok m ∧
    m.readOut range = .bytes (some [0x61#8, 0#8, 0#8, 0#8, 2#8, 0#8, 0#8, 0#8]) ∧
    (m.watch [.inr range, .inr range]).1 = [m.readOut range, m.readOut range] ∧
    (m.map.read (Devices.keyboardPop + 2#32)).1 = some 0x61#32 ∧
    (m.map.read (Devices.keyboardPop + 2#32)).2.devices.keys.toList = [0x62#8] := by
  intro devices m range
  have hnew : new {} devices = .ok m := new_eq_ok (by decide) devices
  obtain ⟨hread, -, hviews, hcells⟩ := looking_never_disturbs
  have hcell : m.map.cell? (Devices.keyboardPop + 2#32) = some Devices.keyboardPop :=
    (hcells {} devices m hnew [] (Devices.keyboardPop + 2#32)).1.mpr (by decide)
  have hkeys := (hread m.map (Devices.keyboardPop + 2#32)).2.keys
  rw [if_pos hcell] at hkeys
  refine ⟨hnew, ?_, ?_, hkeys.1, hkeys.2⟩
  · rw [← look_eq_readOut]
    decide +kernel
  · have hfirst : (m.watch [.inr range, .inr range]).1 =
        m.readOut range :: (m.watch [.inr range]).1 := hviews m [] [.inr range] range
    have hsecond : (m.watch [.inr range]).1 = [m.readOut range] := hviews m [] [] range
    rw [hfirst, hsecond]

end Machine

end HomeComputer

/-
One memory behind every path.

The hart reads, looks and writes by words, the host pokes single bytes, loads and fills
ranges, and a debugger reads and writes memory byte by byte, stopping where there is none.
Every one of them finds its region and its place in a store in its own way.  Here they are
shown to work on one memory of bytes, whatever was asked before: a machine answers any list of
requests as the flattening of its map does.

The induction is on the list.  It is carried by the extents of the map, which no request
changes, and with them by soundness and by stores being made of whole words.

The computer counts the bytes of a range in words, so on a range longer than the address space
the count starts over; the flattening has no such count.  The two agree as long as something stops
the range before that (`FlatMemory.Counted`), as any free word does.
-/
import HomeComputer.Machine
import HomeComputer.Proofs.Memory.Flattening

namespace HomeComputer

namespace Machine

variable {δ : Type} [DeviceAccess δ]

/-! ### Requests -/

/-- The answer of a machine to a request, and the machine afterwards. -/
def serve (m : Machine δ) : MemoryRequest → MemoryAnswer × Machine δ
  | .read addr => let (answer, map) := m.map.read addr; (.word answer, { m with map })
  | .peek addr => (.word (m.map.peek addr), m)
  | .write addr value lanes => (.done, { m with map := m.map.write addr value lanes })
  | .poke addr b =>
      match m.map.poke? addr b with
      | some map => (.accepted true, { m with map })
      | none => (.accepted false, m)
  | .load addr data =>
      match m.map.load addr data with
      | .ok map => (.outcome none, { m with map })
      | .error fault => (.outcome (some fault), m)
  | .fill addr len b =>
      match m.map.fill addr len b with
      | .ok map => (.outcome none, { m with map })
      | .error fault => (.outcome (some fault), m)
  | .readMemory addr len => (.bytes (m.readMemory? addr len), m)
  | .writeMemory addr data => let (all, m) := m.writeMemory addr data; (.accepted all, m)

/-- The answers to requests one after the other, and the machine after all of them. -/
def serveAll (m : Machine δ) : List MemoryRequest → List MemoryAnswer × Machine δ
  | [] => ([], m)
  | q :: qs =>
      let (answer, m) := m.serve q
      let (answers, m) := m.serveAll qs
      (answer :: answers, m)

/-- The machines that come about by adding regions, their stores clear, and by requests, in
any order. -/
inductive Reachable : Machine δ → Prop
  | empty (m : Machine δ) (hregions : m.map.regions = []) : Reachable m
  | boot {m : Machine δ} (hm : Reachable m) (start size : Word) {map : AddressMap δ}
      (hadd : m.map.addRegion (Region.boot start size) = .ok map) : Reachable { m with map }
  | ram {m : Machine δ} (hm : Reachable m) (start size : Word) {map : AddressMap δ}
      (hadd : m.map.addRegion (Region.ram start size) = .ok map) : Reachable { m with map }
  | window {m : Machine δ} (hm : Reachable m) (start size : Word) {map : AddressMap δ}
      (hadd : m.map.addRegion (Region.window start size) = .ok map) : Reachable { m with map }
  | serve {m : Machine δ} (hm : Reachable m) (q : MemoryRequest) : Reachable (m.serve q).2

/-! ### Reading and writing ranges -/

variable {m : Machine δ}

/-- A range goes on at the address that comes next, if there is one. -/
theorem readFrom_succ (m : Machine δ) (addr : Word) (i len : Nat) :
    m.readFrom addr i (len + 1) =
      match (addr.after? i).bind m.byteAt? with
      | none => []
      | some b => b :: m.readFrom addr (i + 1) len := rfl

/-- Reading goes on as long as there is a byte, wherever it is told from what is there. -/
theorem readFrom_eq_stretch {addr : Word} {byte : Nat → Option Byte} {n i len : Nat}
    (hbyte : ∀ k < len, (∀ j < k, (byte (n + j)).isSome = true) →
      (addr.after? (i + k)).bind m.byteAt? = byte (n + k)) :
    m.readFrom addr i len = (stretch (fun k => (byte k).isSome) n len).filterMap byte := by
  induction len generalizing n i with
  | zero => rfl
  | succ len ih =>
      have hfirst : (addr.after? i).bind m.byteAt? = byte n := hbyte 0 (Nat.succ_pos len) nofun
      rw [FlatMemory.stretch_succ, readFrom_succ, hfirst]
      cases hbegin : byte n with
      | none => rfl
      | some b =>
          have hrest := ih (n := n + 1) (i := i + 1) fun k hk hbefore => by
            have hnext := hbyte (k + 1) (Nat.succ_lt_succ hk) fun j hj => by
              cases j with
              | zero =>
                  rw [Nat.add_zero, hbegin]
                  rfl
              | succ j =>
                  rw [Nat.add_comm j, ← Nat.add_assoc]
                  exact hbefore j (Nat.lt_of_succ_lt_succ hj)
            rwa [Nat.add_comm k, ← Nat.add_assoc, ← Nat.add_assoc] at hnext
          simp [hbegin, hrest]

/-- There is a byte wherever a store holds the start of its word. -/
theorem isSome_byteAt? (hm : m.map.Sound) {r : Region} (hr : r ∈ m.map.regions)
    {s : Store} (hstore : r.backing.store? = some s) {addr : Word}
    (hin : r.contains addr.aligned = true) : (m.byteAt? addr).isSome = true := by
  unfold byteAt? AddressMap.peek
  rw [hm.lookup_eq_some_iff.mpr ⟨hr, hin⟩]
  simp only [hstore]
  rfl

/-- Where there is a byte at every place of a range, all are read. -/
theorem length_readFrom {addr : Word} {i len : Nat}
    (hpresent : ∀ k, i ≤ k → k < i + len →
      ((addr.after? k).bind m.byteAt?).isSome = true) : (m.readFrom addr i len).length = len := by
  induction len generalizing i with
  | zero => rfl
  | succ len ih =>
      obtain ⟨b, hb⟩ := Option.isSome_iff_exists.mp (hpresent i (Nat.le_refl i) (by omega))
      rw [readFrom_succ, hb]
      exact congrArg Nat.succ (ih fun k hle hlt => hpresent k (by omega) (by omega))

theorem writeFrom_cons (m : Machine δ) (addr : Word) (i : Nat) (b : Byte) (data : List Byte) :
    m.writeFrom addr i (b :: data) =
      match (addr.after? i).bind (m.map.poke? · b) with
      | none => (false, m)
      | some map => { m with map }.writeFrom addr (i + 1) data := rfl

theorem writeFrom_of_poke {addr : Word} {i : Nat} {b : Byte} {map : AddressMap δ}
    (hpoke : (addr.after? i).bind (m.map.poke? · b) = some map) (data : List Byte) :
    m.writeFrom addr i (b :: data) = { m with map }.writeFrom addr (i + 1) data := by
  rw [writeFrom_cons, hpoke]

theorem writeFrom_of_stop {addr : Word} {i : Nat} {b : Byte}
    (hstop : (addr.after? i).bind (m.map.poke? · b) = none) (data : List Byte) :
    m.writeFrom addr i (b :: data) = (false, m) := by
  rw [writeFrom_cons, hstop]

/-- What every poke keeps, writing a range keeps. -/
theorem writeFrom_induction {motive : AddressMap δ → Prop}
    (poke : ∀ {map map' : AddressMap δ} {c : Word} {b : Byte},
      motive map → map.poke? c b = some map' → motive map')
    (h : motive m.map) (addr : Word) (i : Nat) (data : List Byte) :
    motive (m.writeFrom addr i data).2.map := by
  induction data generalizing m i with
  | nil => exact h
  | cons b data ih =>
      cases hpoke : (addr.after? i).bind (m.map.poke? · b) with
      | none =>
          rw [writeFrom_of_stop hpoke]
          exact h
      | some map =>
          obtain ⟨c, -, hmap⟩ := Option.bind_eq_some_iff.mp hpoke
          rw [writeFrom_of_poke hpoke]
          exact ih (m := { m with map }) (poke h hmap) (i + 1)

theorem extents_writeFrom (m : Machine δ) (addr : Word) (i : Nat) (data : List Byte) :
    (m.writeFrom addr i data).2.map.extents = m.map.extents :=
  writeFrom_induction (motive := fun map => map.extents = m.map.extents)
    (fun h hpoke => (AddressMap.extents_poke? hpoke).trans h) rfl addr i data

theorem serve_fill (m : Machine δ) (addr : Word) (len : Nat) (b : Byte) :
    m.serve (.fill addr len b) = m.serve (.load addr (List.replicate len b)) := by
  simp only [serve, AddressMap.fill_eq_load]

theorem extents_serve_load (m : Machine δ) (addr : Word) (data : List Byte) :
    (m.serve (.load addr data)).2.map.extents = m.map.extents := by
  simp only [serve]
  cases hload : m.map.load addr data with
  | error fault => rfl
  | ok map => exact AddressMap.extents_load hload

/-- No request moves a region. -/
theorem extents_serve (m : Machine δ) (q : MemoryRequest) :
    (m.serve q).2.map.extents = m.map.extents := by
  cases q with
  | read addr => exact AddressMap.extents_read m.map addr
  | peek addr => rfl
  | write addr value lanes => exact AddressMap.extents_write m.map addr value lanes
  | poke addr b =>
      simp only [serve]
      cases hpoke : m.map.poke? addr b with
      | none => rfl
      | some map => exact AddressMap.extents_poke? hpoke
  | load addr data => exact extents_serve_load m addr data
  | fill addr len b =>
      rw [serve_fill]
      exact extents_serve_load m addr (List.replicate len b)
  | readMemory addr len => rfl
  | writeMemory addr data => exact extents_writeFrom m addr 0 data

theorem Reachable.sound (hm : m.Reachable) : m.map.Sound := by
  induction hm with
  | empty m hregions => exact AddressMap.sound_of_regions_nil hregions
  | boot _ _ _ hadd ih => exact ih.addRegion hadd
  | ram _ _ _ hadd ih => exact ih.addRegion hadd
  | window _ _ _ hadd ih => exact ih.addRegion hadd
  | @serve m hm q ih => exact ih.of_extents (extents_serve m q)

/-! ### The standard map -/

/-- A computer with the standard map, its stores clear. -/
def fresh (config : Config) (devices : δ) : Machine δ where
  hart := { pc := config.resetPc, isa := config.isa }
  map := {
    regions := [Region.boot AddressMap.bootStart AddressMap.bootSize,
      Region.window Devices.windowStart Devices.windowSize,
      Region.ram AddressMap.ramStart config.ramSize]
    devices
    alignment := config.alignment }
  resetPc := config.resetPc

omit [DeviceAccess δ] in
theorem addRegion_boot (alignment : Alignment) (devices : δ) :
    ({ devices, alignment } : AddressMap δ).addRegion
        (Region.boot AddressMap.bootStart AddressMap.bootSize) =
      .ok { regions := [Region.boot AddressMap.bootStart AddressMap.bootSize],
            devices, alignment } := rfl

omit [DeviceAccess δ] in
theorem addRegion_window (alignment : Alignment) (devices : δ) :
    ({ regions := [Region.boot AddressMap.bootStart AddressMap.bootSize],
       devices, alignment } : AddressMap δ).addRegion
        (Region.window Devices.windowStart Devices.windowSize) =
      .ok { regions := [Region.boot AddressMap.bootStart AddressMap.bootSize,
              Region.window Devices.windowStart Devices.windowSize],
            devices, alignment } := rfl

omit [DeviceAccess δ] in
theorem addRegion_ram {config : Config} (hsize : config.ramSize ≠ 0#32) (devices : δ) :
    ({ regions := [Region.boot AddressMap.bootStart AddressMap.bootSize,
         Region.window Devices.windowStart Devices.windowSize],
       devices, alignment := config.alignment } : AddressMap δ).addRegion
        (Region.ram AddressMap.ramStart config.ramSize) =
      .ok (fresh config devices).map := by
  rw [AddressMap.addRegion_eq_ok_iff]
  refine ⟨hsize, ?_, rfl⟩
  intro q hq
  simp only [List.mem_cons, List.not_mem_nil, or_false] at hq
  rcases hq with rfl | rfl
  · rfl
  · rfl

omit [DeviceAccess δ] in
/-- Any RAM that is not empty fits into the standard map. -/
theorem new_eq_ok {config : Config} (hsize : config.ramSize ≠ 0#32) (devices : δ) :
    Machine.new config devices = .ok (fresh config devices) := by
  unfold new AddressMap.standard
  simp only [addRegion_boot, addRegion_window, addRegion_ram hsize, bind, Except.bind]
  rfl

theorem reachable_fresh {config : Config} (hsize : config.ramSize ≠ 0#32) (devices : δ) :
    (fresh config devices).Reachable := by
  have hempty : Reachable { fresh config devices with
      map := { devices, alignment := config.alignment } } := .empty _ rfl
  have hboot := hempty.boot _ _ (addRegion_boot config.alignment devices)
  have hwindow := hboot.window _ _ (addRegion_window config.alignment devices)
  exact hwindow.ram _ _ (addRegion_ram hsize devices)

/-- A computer with RAM at every address. -/
def full (devices : δ) : Machine δ where
  hart := {}
  map := {
    regions := [Region.ram 0#32 0x80000000#32, Region.ram 0x80000000#32 0x80000000#32]
    devices }
  resetPc := 0#32

end Machine

end HomeComputer

/-
The bytes that go through the devices.

There are three queues: keys wait for whoever asks first, and over the link bytes wait for the
guest and for the host.  The host works on the queues and the guest reads and writes cells, in any
order, and `Exchange` is one thing that either does.

For each queue `came` is what an exchange adds, and `left` is what is gone from it afterwards.  One
step lemma holds for all of them (`waiting_append_came`): what waited, followed by what came, is
what left, followed by what waits.  Bytes leave because they were handed over, and where the link
is reset all of them leave at once.  So as long as nothing resets the link, what came is what was
handed over and what waits, in this order.

Which cell an address is in is up to the address map, which no exchange changes (`cell?_exchange`).
-/
import HomeComputer.Proofs.Machine.Memory

namespace HomeComputer

namespace AddressMap

/-! ### Cells -/

section Cells

variable {δ : Type}

/-- The cell of the devices that an address is in. -/
def cell? (m : AddressMap δ) (addr : Word) : Option Word :=
  if (m.lookup addr.aligned).any (·.backing.isWindow) then some addr.aligned else none

theorem cell?_eq_some_iff {m : AddressMap δ} {addr cell : Word} :
    m.cell? addr = some cell ↔
      (∃ r, m.lookup addr.aligned = some r ∧ r.backing = .window) ∧ cell = addr.aligned := by
  unfold cell?
  cases hlookup : m.lookup addr.aligned with
  | none => simp
  | some r => cases hbacking : r.backing <;> simp [Backing.isWindow, hbacking, eq_comm]

theorem lastBelow_map {g : Region → Region} (hg : ∀ r, (g r).start = r.start) (addr : Word)
    (rs : List Region) : lastBelow addr (rs.map g) = (lastBelow addr rs).map g := by
  induction rs with
  | nil => rfl
  | cons r rs ih =>
      rw [List.map_cons, lastBelow, lastBelow, ih]
      cases lastBelow addr rs with
      | some q => rfl
      | none =>
          show (if (g r).start.toNat ≤ addr.toNat then some (g r) else none) = _
          rw [hg]
          split <;> rfl

/-- Another store behind a region makes no window of it, nor of a window a store. -/
theorem cell?_setStore (m : AddressMap δ) (r : Region) (s : Store) (addr : Word) :
    (m.setStore r s).cell? addr = m.cell? addr := by
  let g (q : Region) : Region :=
    if q.start = r.start then { q with backing := q.backing.withStore s } else q
  have hg (q : Region) : (g q).start = q.start ∧ (g q).contains = q.contains ∧
      (g q).backing.isWindow = q.backing.isWindow := by
    by_cases hq : q.start = r.start
    · simp only [g, if_pos hq]
      refine ⟨trivial, rfl, ?_⟩
      cases q.backing <;> rfl
    · simp only [g, if_neg hq, and_self]
  have hlookup : (m.setStore r s).lookup addr.aligned = (m.lookup addr.aligned).map g := by
    show (lastBelow _ (m.regions.map g)).filter _ = ((lastBelow _ m.regions).filter _).map g
    rw [lastBelow_map fun q => (hg q).1]
    cases lastBelow addr.aligned m.regions with
    | none => rfl
    | some q =>
        simp only [Option.map_some, Option.filter_some, (hg q).2.1]
        split <;> rfl
  unfold cell?
  rw [hlookup]
  cases m.lookup addr.aligned with
  | none => rfl
  | some q => simp only [Option.map_some, Option.any_some, (hg q).2.2]

section
variable [DeviceAccess δ]

theorem cell?_read (m : AddressMap δ) (a addr : Word) : (m.read a).2.cell? addr = m.cell? addr := by
  unfold read
  cases m.lookup a.aligned with
  | none => rfl
  | some r =>
      cases hstore : r.backing.store? with
      | some s => simp only [hstore]
      | none =>
          simp only [hstore]
          rfl

theorem cell?_write (m : AddressMap δ) (a value : Word) (lanes : Lanes) (addr : Word) :
    (m.write a value lanes).cell? addr = m.cell? addr := by
  unfold write
  cases m.lookup a.aligned with
  | none => rfl
  | some r =>
      cases hbacking : r.backing with
      | boot s => simp only [hbacking]
      | ram s => simp only [hbacking, cell?_setStore]
      | window =>
          simp only [hbacking]
          rfl

end

end Cells

/-! ### The guest's side -/

variable {m : AddressMap Devices}

theorem read_of_cell {addr cell : Word} (hcell : m.cell? addr = some cell) :
    m.read addr =
      ((m.devices.read cell).1, { m with devices := (m.devices.read cell).2 }) := by
  obtain ⟨⟨r, hlookup, hbacking⟩, rfl⟩ := cell?_eq_some_iff.mp hcell
  simp only [read, hlookup, hbacking, Backing.store?]
  rfl

theorem peek_of_cell {addr cell : Word} (hcell : m.cell? addr = some cell) :
    m.peek addr = m.devices.peek cell := by
  obtain ⟨⟨r, hlookup, hbacking⟩, rfl⟩ := cell?_eq_some_iff.mp hcell
  simp only [peek, hlookup, hbacking, Backing.store?]
  rfl

theorem devices_read_of_none {addr : Word} (hcell : m.cell? addr = none) :
    (m.read addr).2.devices = m.devices := by
  unfold read
  cases hlookup : m.lookup addr.aligned with
  | none => rfl
  | some r =>
      cases hbacking : r.backing with
      | boot s | ram s => simp only [hbacking, Backing.store?]
      | window =>
          rw [cell?_eq_some_iff.mpr ⟨⟨r, hlookup, hbacking⟩, rfl⟩] at hcell
          cases hcell

theorem devices_write (m : AddressMap Devices) (addr value : Word) (lanes : Lanes) :
    (m.write addr value lanes).devices =
      match m.cell? addr with
      | some cell => m.devices.write cell value lanes
      | none => m.devices := by
  unfold write cell?
  cases m.lookup addr.aligned with
  | none => rfl
  | some r =>
      cases hbacking : r.backing with
      | boot s | ram s | window =>
          simp only [Option.any_some, hbacking, Backing.isWindow]
          rfl

end AddressMap

/-! ### What the guest does to the queues -/

namespace Devices

/-- A cell shows to a look what it hands over to a read. -/
theorem peek_eq_read (d : Devices) (cell : Word) : d.peek cell = (d.read cell).1 := by
  have hcontrol : linkData ≠ linkControl ∧ keyboardPop ≠ linkControl := by decide
  have hapart : keyboardPop ≠ linkData := by decide
  unfold read
  by_cases hdata : cell = linkData
  · rw [if_pos hdata, hdata]
    unfold peek
    rw [if_neg hcontrol.1, if_pos rfl]
    rfl
  · rw [if_neg hdata]
    by_cases hpop : cell = keyboardPop
    · rw [if_pos hpop, hpop]
      unfold peek
      rw [if_neg hcontrol.2, if_neg hapart, if_pos rfl]
      rfl
    · rw [if_neg hpop]

theorem read_keys (d : Devices) (cell : Word) :
    (d.read cell).2.keys = if cell = keyboardPop then d.keys.tail else d.keys := by
  have hapart : linkData ≠ keyboardPop := by decide
  unfold read
  by_cases hdata : cell = linkData
  · rw [if_pos hdata, hdata, if_neg hapart]
  · rw [if_neg hdata]
    split <;> rfl

theorem read_received (d : Devices) (cell : Word) :
    (d.read cell).2.received = if cell = linkData then d.received.tail else d.received := by
  unfold read
  split
  · rfl
  · split <;> rfl

theorem read_sent (d : Devices) (cell : Word) : (d.read cell).2.sent = d.sent := by
  unfold read
  split
  · rfl
  · split <;> rfl

theorem read_buttons (d : Devices) (cell : Word) : (d.read cell).2.buttons = d.buttons := by
  unfold read
  split
  · rfl
  · split <;> rfl

theorem write_keys (d : Devices) (cell value : Word) (lanes : Lanes) :
    (d.write cell value lanes).keys = d.keys := by
  unfold write
  split
  · rfl
  · split <;> rfl

theorem write_received (d : Devices) (cell value : Word) (lanes : Lanes) :
    (d.write cell value lanes).received =
      if cell = linkControl ∧ lanes.getLsbD 3 = true ∧ value &&& linkReset ≠ 0#32 then .empty
      else d.received := by
  have hapart : linkData ≠ linkControl := by decide
  unfold write
  by_cases hdata : cell = linkData ∧ lanes.getLsbD 0 = true
  · rw [if_pos hdata, if_neg fun h => hapart (hdata.1.symm.trans h.1)]
  · rw [if_neg hdata]
    split <;> rfl

theorem write_sent (d : Devices) (cell value : Word) (lanes : Lanes) :
    (d.write cell value lanes).sent =
      if cell = linkData ∧ lanes.getLsbD 0 = true then d.sent.push (Word.byte value 0)
      else if cell = linkControl ∧ lanes.getLsbD 3 = true ∧ value &&& linkReset ≠ 0#32 then .empty
      else d.sent := by
  unfold write
  split
  · rfl
  · split <;> rfl

/-- What a read of a queue's cell answers. -/
theorem byte_front (queue : Queue Byte) {b : Byte} (hb : queue.head? = some b) :
    Word.byte (front queue) 0 = b := by
  unfold front cellOf
  rw [hb]
  apply BitVec.eq_of_getLsbD_eq
  intro j hj
  rw [Word.getLsbD_byte, Option.getD_some, BitVec.getLsbD_setWidth]
  simp [hj, show j < 32 by omega]

end Devices

/-! ### Exchanges -/

/-- One thing that the host or the guest does with the devices. -/
inductive Exchange
  | pushKey (key : Byte)
  | popKey
  | send (data : List Byte)
  /-- The host takes everything the guest has sent. -/
  | takeSent
  | read (addr : Word)
  | peek (addr : Word)
  | write (addr value : Word) (lanes : Lanes)

namespace AddressMap

variable (m : AddressMap Devices)

def exchange : Exchange → AddressMap Devices
  | .pushKey key => { m with devices := m.devices.pushKey key }
  | .popKey => { m with devices := m.devices.popKey.2 }
  | .send data => { m with devices := m.devices.send data }
  | .takeSent => { m with devices := m.devices.takeSent.2 }
  | .read addr => (m.read addr).2
  | .peek _ => m
  | .write addr value lanes => m.write addr value lanes

def exchangeAll (history : List Exchange) : AddressMap Devices := history.foldl exchange m

/-- The exchange is a write that resets the link. -/
def Resets : Exchange → Prop
  | .write addr value lanes => m.cell? addr = some Devices.linkControl ∧
      lanes.getLsbD 3 = true ∧ value &&& Devices.linkReset ≠ 0#32
  | _ => False

instance : (e : Exchange) → Decidable (m.Resets e)
  | .write _ _ _ => inferInstanceAs (Decidable (_ ∧ _ ∧ _))
  | .pushKey _ | .popKey | .send _ | .takeSent | .read _ | .peek _ =>
      inferInstanceAs (Decidable False)

theorem keys_devices_write (addr value : Word) (lanes : Lanes) :
    (m.write addr value lanes).devices.keys = m.devices.keys := by
  rw [devices_write]
  cases m.cell? addr with
  | none => rfl
  | some cell => exact m.devices.write_keys cell value lanes

variable {m} in
theorem resets_write_iff {addr cell value : Word} {lanes : Lanes}
    (hcell : m.cell? addr = some cell) :
    m.Resets (.write addr value lanes) ↔
      cell = Devices.linkControl ∧ lanes.getLsbD 3 = true ∧ value &&& Devices.linkReset ≠ 0#32 := by
  show (m.cell? addr = some Devices.linkControl ∧ _ ∧ _) ↔ _
  rw [hcell, Option.some.injEq]

variable {m} in
theorem not_resets_write {addr : Word} (hcell : m.cell? addr = none) (value : Word)
    (lanes : Lanes) : ¬m.Resets (.write addr value lanes) := by
  rintro ⟨hcontrol, -⟩
  rw [hcell] at hcontrol
  cases hcontrol

theorem received_devices_write (addr value : Word) (lanes : Lanes) :
    (m.write addr value lanes).devices.received =
      if m.Resets (.write addr value lanes) then .empty else m.devices.received := by
  rw [devices_write]
  cases hcell : m.cell? addr with
  | none => rw [if_neg (not_resets_write hcell value lanes)]
  | some cell => simp only [Devices.write_received, resets_write_iff hcell]

theorem sent_devices_write (addr value : Word) (lanes : Lanes) :
    (m.write addr value lanes).devices.sent =
      if m.cell? addr = some Devices.linkData ∧ lanes.getLsbD 0 = true then
        m.devices.sent.push (Word.byte value 0)
      else if m.Resets (.write addr value lanes) then .empty
      else m.devices.sent := by
  rw [devices_write]
  cases hcell : m.cell? addr with
  | none => rw [if_neg (fun h => nomatch h.1), if_neg (not_resets_write hcell value lanes)]
  | some cell => simp only [Devices.write_sent, resets_write_iff hcell, Option.some.injEq]

/-- The byte that a read of a queue's cell takes from the queue, if one waits. -/
def readOut (cell : Word) (queue : Queue Byte) (addr : Word) : List Byte :=
  if m.cell? addr = some cell ∧ ¬queue.isEmpty = true then
    ((m.read addr).1.map (Word.byte · 0)).toList
  else []

end AddressMap

/-- A queue that bytes go through. -/
inductive Channel
  | keyboard
  | toGuest
  | toHost
  deriving DecidableEq

namespace Channel

def queue (d : Devices) : Channel → Queue Byte
  | keyboard => d.keys
  | toGuest => d.received
  | toHost => d.sent

variable (c : Channel) (m : AddressMap Devices)

def waiting : List Byte := (c.queue m.devices).toList

/-- The bytes that an exchange adds to the channel. -/
def came (e : Exchange) : List Byte :=
  match c, e with
  | keyboard, .pushKey key => [key]
  | toGuest, .send data => data
  | toHost, .write addr value lanes =>
      if m.cell? addr = some Devices.linkData ∧ lanes.getLsbD 0 = true then [Word.byte value 0]
      else []
  | _, _ => []

/-- The bytes that an exchange hands over. -/
def went (e : Exchange) : List Byte :=
  match c, e with
  | keyboard, .popKey => m.devices.popKey.1.toList
  | keyboard, .read addr => m.readOut Devices.keyboardPop m.devices.keys addr
  | toGuest, .read addr => m.readOut Devices.linkData m.devices.received addr
  | toHost, .takeSent => m.devices.takeSent.1
  | _, _ => []

/-- The bytes that are gone after an exchange: a reset of the link drops all. -/
def left (e : Exchange) : List Byte :=
  if m.Resets e ∧ c ≠ keyboard then c.waiting m else c.went m e

/-! ### One exchange -/

/-- Reading the cell of a queue takes from the queue what it hands over, and reading another cell
does neither. -/
theorem readOut_append {cell : Word} {queue : Devices → Queue Byte}
    (hpeek : ∀ d : Devices, d.peek cell = some (Devices.front (queue d)))
    (hread : ∀ (d : Devices) (other : Word),
      queue (d.read other).2 = if other = cell then (queue d).tail else queue d)
    (m : AddressMap Devices) (addr : Word) :
    m.readOut cell (queue m.devices) addr ++ (queue (m.read addr).2.devices).toList =
      (queue m.devices).toList := by
  unfold AddressMap.readOut
  by_cases hcell : m.cell? addr = some cell
  · rw [AddressMap.read_of_cell hcell, ← Devices.peek_eq_read, hpeek, hread, if_pos rfl,
      Queue.toList_tail]
    cases hqueue : (queue m.devices).toList with
    | nil =>
        have hempty : (queue m.devices).isEmpty = true := by
          rw [← Queue.isEmpty_toList, hqueue]
          rfl
        rw [if_neg fun h => h.2 hempty]
        rfl
    | cons b rest =>
        have hempty : ¬(queue m.devices).isEmpty = true := by
          rw [← Queue.isEmpty_toList, hqueue]
          exact nofun
        have hhead : (queue m.devices).head? = some b := by
          rw [← Queue.head?_toList, hqueue]
          rfl
        rw [if_pos ⟨hcell, hempty⟩, Option.map_some, Devices.byte_front _ hhead]
        rfl
  · rw [if_neg fun h => hcell h.1, List.nil_append]
    cases hother : m.cell? addr with
    | none => rw [AddressMap.devices_read_of_none hother]
    | some other =>
        rw [hother] at hcell
        rw [AddressMap.read_of_cell hother, hread, if_neg fun h => hcell (congrArg some h)]

theorem left_of_not_resets {m : AddressMap Devices} {e : Exchange} (he : ¬m.Resets e) :
    c.left m e = c.went m e := if_neg fun h => he h.1

/-- A reset of the link drops no keys. -/
theorem left_keyboard (e : Exchange) : keyboard.left m e = keyboard.went m e :=
  if_neg fun h => h.2 rfl

/-- A reset of the link drops what waits, a byte of data comes, and another write does neither. -/
theorem waiting_append_came_write (addr value : Word) (lanes : Lanes) :
    c.waiting m ++ c.came m (.write addr value lanes) =
      c.left m (.write addr value lanes) ++ c.waiting (m.write addr value lanes) := by
  have hdropped (hreset : m.Resets (.write addr value lanes)) (hc : c ≠ keyboard) :
      c.left m (.write addr value lanes) = c.waiting m := if_pos ⟨hreset, hc⟩
  cases c with
  | keyboard =>
      refine (List.append_nil _).trans ?_
      rw [left_keyboard]
      show m.devices.keys.toList = (m.write addr value lanes).devices.keys.toList
      rw [m.keys_devices_write]
  | toGuest =>
      refine (List.append_nil _).trans ?_
      show _ = _ ++ (m.write addr value lanes).devices.received.toList
      rw [m.received_devices_write]
      by_cases hreset : m.Resets (.write addr value lanes)
      · rw [if_pos hreset, hdropped hreset nofun]
        exact (List.append_nil _).symm
      · rw [if_neg hreset, left_of_not_resets _ hreset]
        rfl
  | toHost =>
      show m.devices.sent.toList ++ (if _ then _ else _) =
        _ ++ (m.write addr value lanes).devices.sent.toList
      rw [m.sent_devices_write]
      by_cases hdata : m.cell? addr = some Devices.linkData ∧ lanes.getLsbD 0 = true
      · have hreset : ¬m.Resets (.write addr value lanes) := by
          rw [AddressMap.resets_write_iff hdata.1]
          exact fun h => absurd h.1 (by decide)
        rw [if_pos hdata, if_pos hdata, left_of_not_resets _ hreset, Queue.toList_push]
        rfl
      · rw [if_neg hdata, if_neg hdata, List.append_nil]
        by_cases hreset : m.Resets (.write addr value lanes)
        · rw [if_pos hreset, hdropped hreset nofun]
          exact (List.append_nil _).symm
        · rw [if_neg hreset, left_of_not_resets _ hreset]
          rfl

/-- What waited and then came is what left and then waits. -/
theorem waiting_append_came (e : Exchange) :
    c.waiting m ++ c.came m e = c.left m e ++ c.waiting (m.exchange e) := by
  cases e with
  | pushKey key =>
      rw [left_of_not_resets c id]
      cases c with
      | keyboard => exact (Queue.toList_push m.devices.keys key).symm
      | toGuest | toHost => exact List.append_nil _
  | popKey =>
      rw [left_of_not_resets c id]
      cases c with
      | keyboard =>
          show m.devices.keys.toList ++ [] =
            m.devices.keys.head?.toList ++ m.devices.keys.tail.toList
          rw [List.append_nil, Queue.toList_tail, ← Queue.head?_toList]
          cases m.devices.keys.toList <;> rfl
      | toGuest | toHost => exact List.append_nil _
  | send data =>
      rw [left_of_not_resets c id]
      cases c with
      | toGuest => exact (Queue.toList_pushAll m.devices.received data).symm
      | keyboard | toHost => exact List.append_nil _
  | takeSent =>
      rw [left_of_not_resets c id]
      cases c with
      | toHost => rfl
      | keyboard | toGuest => exact List.append_nil _
  | read addr =>
      rw [left_of_not_resets c id]
      cases c with
      | keyboard =>
          refine (List.append_nil _).trans ?_
          exact (readOut_append (fun _ => rfl) Devices.read_keys m addr).symm
      | toGuest =>
          refine (List.append_nil _).trans ?_
          exact (readOut_append (fun _ => rfl) Devices.read_received m addr).symm
      | toHost =>
          refine (List.append_nil _).trans ?_
          show m.devices.sent.toList = (m.read addr).2.devices.sent.toList
          cases hcell : m.cell? addr with
          | none => rw [AddressMap.devices_read_of_none hcell]
          | some cell => rw [AddressMap.read_of_cell hcell, Devices.read_sent]
  | peek addr =>
      rw [left_of_not_resets c id]
      cases c <;> exact List.append_nil _
  | write addr value lanes => exact waiting_append_came_write c m addr value lanes

end Channel

/-! ### Histories -/

namespace AddressMap

/-- What the exchanges of a history have of something, one after the other. -/
def gather (m : AddressMap Devices) (part : AddressMap Devices → Exchange → List Byte) :
    List Exchange → List Byte
  | [] => []
  | e :: history => part m e ++ (m.exchange e).gather part history

theorem cell?_exchange (m : AddressMap Devices) (e : Exchange) (addr : Word) :
    (m.exchange e).cell? addr = m.cell? addr := by
  cases e with
  | read a => exact m.cell?_read a addr
  | write a value lanes => exact m.cell?_write a value lanes addr
  | pushKey _ | popKey | send _ | takeSent | peek _ => rfl

theorem resets_exchange (m : AddressMap Devices) (e other : Exchange) :
    (m.exchange e).Resets other ↔ m.Resets other := by
  cases other with
  | write addr value lanes =>
      show ((m.exchange e).cell? addr = _ ∧ _) ↔ m.cell? addr = _ ∧ _
      rw [cell?_exchange]
  | pushKey _ | popKey | send _ | takeSent | read _ | peek _ => rfl

theorem resets_exchangeAll (m : AddressMap Devices) (history : List Exchange) (other : Exchange) :
    (m.exchangeAll history).Resets other ↔ m.Resets other := by
  induction history generalizing m with
  | nil => rfl
  | cons e history ih => exact (ih (m.exchange e)).trans (m.resets_exchange e other)

end AddressMap

namespace Channel

variable (c : Channel)

/-- What waited at first and then came is what has left and what waits at last. -/
theorem waiting_append_gather (m : AddressMap Devices) (history : List Exchange) :
    c.waiting m ++ m.gather c.came history =
      m.gather c.left history ++ c.waiting (m.exchangeAll history) := by
  induction history generalizing m with
  | nil => exact List.append_nil _
  | cons e history ih =>
      show c.waiting m ++ (c.came m e ++ (m.exchange e).gather c.came history) =
        (c.left m e ++ (m.exchange e).gather c.left history) ++ _
      rw [← List.append_assoc, waiting_append_came, List.append_assoc, ih, List.append_assoc]
      rfl

/-- Where nothing is dropped, bytes leave only by being handed over. -/
theorem gather_left {m : AddressMap Devices} {history : List Exchange}
    (hkept : c = keyboard ∨ ∀ e ∈ history, ¬m.Resets e) :
    m.gather c.left history = m.gather c.went history := by
  induction history generalizing m with
  | nil => rfl
  | cons e history ih =>
      have hfirst : c.left m e = c.went m e :=
        if_neg fun h => hkept.elim h.2 fun hkept => hkept e List.mem_cons_self h.1
      have hrest : c = keyboard ∨ ∀ other ∈ history, ¬(m.exchange e).Resets other :=
        hkept.imp_right fun hkept other hother => by
          rw [AddressMap.resets_exchange]
          exact hkept other (List.mem_cons_of_mem e hother)
      show c.left m e ++ _ = c.went m e ++ _
      rw [hfirst, ih hrest]

theorem waiting_of_resets {c : Channel} {m : AddressMap Devices} {e : Exchange}
    (hreset : m.Resets e) (hc : c ≠ keyboard) : c.waiting (m.exchange e) = [] := by
  cases e with
  | write addr value lanes =>
      cases c with
      | keyboard => exact absurd rfl hc
      | toGuest =>
          show (m.write addr value lanes).devices.received.toList = []
          rw [m.received_devices_write, if_pos hreset]
          rfl
      | toHost =>
          have hdata : ¬(m.cell? addr = some Devices.linkData ∧ lanes.getLsbD 0 = true) := by
            rw [hreset.1]
            exact fun h => absurd h.1 (by decide)
          show (m.write addr value lanes).devices.sent.toList = []
          rw [m.sent_devices_write, if_neg hdata, if_pos hreset]
          rfl
  | pushKey _ | popKey | send _ | takeSent | read _ | peek _ => cases hreset

end Channel

/-! ### What the guest sees -/

namespace AddressMap

open Channel

/-- What the cells tell of the queues. -/
structure CellsTell (m : AddressMap Devices) : Prop where
  /-- How many keys wait, as far as a word can tell. -/
  status : ∀ addr, m.cell? addr = some Devices.keyboardStatus →
    m.read addr = (some (BitVec.ofNat 32 (keyboard.waiting m).length), m)
  /-- Whether a byte waits for the guest. -/
  ready : ∀ addr, m.cell? addr = some Devices.linkControl →
    ∃ status, m.read addr = (some status, m) ∧
      (status.getLsbD 0 = true ↔ toGuest.waiting m ≠ [])
  key : ∀ addr, m.cell? addr = some Devices.keyboardPop →
    (m.read addr).1 = some (((keyboard.waiting m).head?.getD 0#8).setWidth 32)
  data : ∀ addr, m.cell? addr = some Devices.linkData →
    (m.read addr).1 = some (((toGuest.waiting m).head?.getD 0#8).setWidth 32)
  /-- A look shows what a read would answer. -/
  peek : ∀ addr cell, m.cell? addr = some cell → m.peek addr = (m.read addr).1

theorem cellsTell (m : AddressMap Devices) : m.CellsTell where
  status addr hcell := by
    unfold waiting
    rw [read_of_cell hcell, Queue.length_toList]
    rfl
  ready addr hcell := by
    refine ⟨m.devices.linkStatus, by rw [read_of_cell hcell]; rfl, ?_⟩
    unfold waiting Devices.linkStatus
    rw [← Queue.isEmpty_toList]
    show _ ↔ m.devices.received.toList ≠ []
    cases m.devices.received.toList with
    | nil => decide
    | cons b rest => simp
  key addr hcell := by
    unfold waiting
    rw [read_of_cell hcell, Queue.head?_toList]
    rfl
  data addr hcell := by
    unfold waiting
    rw [read_of_cell hcell, Queue.head?_toList]
    rfl
  peek addr cell hcell := by
    rw [peek_of_cell hcell, read_of_cell hcell, Devices.peek_eq_read]

/-- **The devices neither lose bytes nor double them nor change their order.**  Whatever the host
and the guest do, the keys that waited and came are those that were handed over and wait.  So are
the bytes of the link in both directions, as long as nothing resets it; a reset leaves none, and
after it all counts from there.  At any time the cells tell the guest what waits. -/
theorem channels_keep_their_bytes (m : AddressMap Devices) :
    (∀ history,
      keyboard.waiting m ++ m.gather keyboard.came history =
        m.gather keyboard.went history ++ keyboard.waiting (m.exchangeAll history)) ∧
    (∀ (c : Channel) (history : List Exchange), (∀ e ∈ history, ¬m.Resets e) →
      c.waiting m ++ m.gather c.came history =
        m.gather c.went history ++ c.waiting (m.exchangeAll history)) ∧
    (∀ (before after : List Exchange) (reset : Exchange), m.Resets reset →
      (∀ e ∈ after, ¬m.Resets e) →
      let start := (m.exchangeAll before).exchange reset
      ∀ c, c ≠ keyboard →
        c.waiting start = [] ∧
        start.gather c.came after =
          start.gather c.went after ++ c.waiting (start.exchangeAll after)) ∧
    ∀ history, (m.exchangeAll history).CellsTell := by
  refine ⟨fun history => ?_, fun c history hkept => ?_, ?_, fun history => cellsTell _⟩
  · rw [keyboard.waiting_append_gather, gather_left keyboard (.inl rfl)]
  · rw [c.waiting_append_gather, gather_left c (.inr hkept)]
  · intro before after reset hreset hkept start c hc
    have hempty : c.waiting start = [] :=
      waiting_of_resets ((m.resets_exchangeAll before reset).mpr hreset) hc
    have hstart : ∀ e ∈ after, ¬start.Resets e := fun e he => by
      rw [resets_exchange, resets_exchangeAll]
      exact hkept e he
    have hconserved := c.waiting_append_gather start after
    rw [hempty, List.nil_append, gather_left c (.inr hstart)] at hconserved
    exact ⟨hempty, hconserved⟩

/-- On the standard map, the host and the guest send while bytes wait from before a reset.  The
guest writes a byte with one lane and one with the others, and reads at an address within a word. -/
theorem channels_keep_their_bytes_after_reset :
    let m : AddressMap Devices := (Machine.fresh {} {}).map
    let reset := Exchange.write 0x10000000#32 0x80000000#32 .all
    let before := [.pushKey 7#8, .send [1#8, 2#8], .write 0x10000004#32 3#32 .all, reset]
    let after := [.send [5#8, 6#8], .read 0x10000006#32, .write 0x10000004#32 0x1141#32 0b0001#4,
      .write 0x10000004#32 0x2242#32 0b1110#4, .read 0x10000010#32, .takeSent, .popKey,
      .write 0x10000005#32 0x3343#32 .all]
    let start := (m.exchangeAll before).exchange reset
    m.Resets reset ∧ (∀ e ∈ after, ¬m.Resets e) ∧
    start.gather toGuest.came after =
      start.gather toGuest.went after ++ toGuest.waiting (start.exchangeAll after) ∧
    start.gather toGuest.came after = [5#8, 6#8] ∧ start.gather toGuest.went after = [5#8] ∧
    start.gather toHost.came after =
      start.gather toHost.went after ++ toHost.waiting (start.exchangeAll after) ∧
    start.gather toHost.came after = [0x41#8, 0x43#8] ∧ start.gather toHost.went after = [0x41#8] ∧
    start.gather keyboard.went after = [7#8] := by
  intro m reset before after start
  have hreset : m.Resets reset := by decide +kernel
  have hkept : ∀ e ∈ after, ¬m.Resets e := by decide +kernel
  have hsince := (channels_keep_their_bytes m).2.2.1 before after reset hreset hkept
  refine ⟨hreset, hkept, (hsince toGuest nofun).2, ?_, ?_, (hsince toHost nofun).2, ?_, ?_, ?_⟩ <;>
    decide +kernel

end AddressMap

end HomeComputer

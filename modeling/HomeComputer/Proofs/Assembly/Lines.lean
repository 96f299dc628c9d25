/-
Assembly lines can be taken to pieces.

The mnemonic ends at the first blank and the operands end at commas, and neither holds such a mark
itself.  A single operand is read back from its text once its kind is known: names, signed and
unsigned numerals and places each tell apart what they stand for, and the name of a control
register is never the numeral of another.
-/
import HomeComputer.Proofs.Assembly.Agreement
import Mathlib.Data.List.Nodup

namespace HomeComputer

/-! ### Texts between marks -/

namespace Text

/-- Where a mark first occurs, a text falls into two parts in one way only. -/
theorem append_mark_inj {mark : Char} {a a' rest rest' : List Char} (ha : mark ∉ a)
    (ha' : mark ∉ a') (h : a ++ mark :: rest = a' ++ mark :: rest') : a = a' ∧ rest = rest' := by
  induction a generalizing a' with
  | nil =>
      cases a' with
      | nil => exact ⟨rfl, (List.cons.inj h).2⟩
      | cons c a' =>
          obtain ⟨rfl, -⟩ := List.cons.inj h
          exact absurd List.mem_cons_self ha'
  | cons c a ih =>
      cases a' with
      | nil =>
          obtain ⟨rfl, -⟩ := List.cons.inj h
          exact absurd List.mem_cons_self ha
      | cons c' a' =>
          obtain ⟨rfl, htail⟩ := List.cons.inj h
          obtain ⟨rfl, hrest⟩ := ih (mt (List.mem_cons_of_mem c) ha)
            (mt (List.mem_cons_of_mem c) ha') htail
          exact ⟨rfl, hrest⟩

theorem comma_not_mem_address (n : Nat) : ',' ∉ (address n).toList := by
  intro h
  rcases mem_address h with h | ⟨d, hd, h⟩
  · exact absurd h (by decide)
  · revert d
    decide

theorem toList_comma (s t : String) :
    (s ++ ", " ++ t).toList = s.toList ++ ',' :: ' ' :: t.toList := by
  simp

/-- As many texts without a comma as were put in a row can be told from the row. -/
theorem intercalate_comma_inj {xs ys : List String} (hlen : xs.length = ys.length)
    (hx : ∀ x ∈ xs, ',' ∉ x.toList) (hy : ∀ y ∈ ys, ',' ∉ y.toList)
    (h : String.intercalate ", " xs = String.intercalate ", " ys) : xs = ys := by
  induction xs generalizing ys with
  | nil => rw [List.eq_nil_of_length_eq_zero hlen.symm]
  | cons x xs ih =>
      match xs, ys, hlen with
      | [], [y], _ =>
          rw [String.intercalate_singleton, String.intercalate_singleton] at h
          rw [h]
      | x' :: xs, y :: y' :: ys, hlen =>
          rw [String.intercalate_cons_cons, String.intercalate_cons_cons, ← String.toList_inj,
            toList_comma, toList_comma] at h
          obtain ⟨hhead, htail⟩ :=
            append_mark_inj (hx x List.mem_cons_self) (hy y List.mem_cons_self) h
          have hrest := ih (Nat.succ.inj hlen) (fun z hz => hx z (List.mem_cons_of_mem x hz))
            (fun z hz => hy z (List.mem_cons_of_mem y hz))
            (String.toList_inj.mp (List.cons.inj htail).2)
          rw [String.toList_inj.mp hhead, hrest]

end Text

namespace Registers

theorem name_inj : ∀ r q : Reg, name r = name q → r = q := by decide

theorem plain_name : ∀ r : Reg, ',' ∉ (name r).toList := by decide

end Registers

namespace Csr

theorem mem_all (c : Csr) : c ∈ all := by cases c <;> decide

theorem name_inj {c c' : Csr} (h : c.name = c'.name) : c = c' :=
  List.inj_on_of_nodup_map (l := all) (by decide) c.mem_all c'.mem_all h

/-- Names of control registers have letters only, and numbers start with a digit. -/
theorem name_ne_address (c : Csr) (n : Nat) : c.name ≠ Text.address n := by
  intro h
  have hhead := congrArg (fun s => s.toList.head?) h
  cases c <;> simp [name, Text.address] at hhead

theorem number_of_ofNumber? {n : CsrNumber} {c : Csr} (h : ofNumber? n = some c) :
    c.number = n := by
  have hfound := List.find?_some h
  exact eq_of_beq hfound

end Csr

/-! ### Operands -/

namespace Operand

/-- No operand holds the mark between operands. -/
theorem comma_not_mem_text (x : Operand) : ',' ∉ x.text.toList := by
  cases x with
  | register r => exact Registers.plain_name r
  | signed v => exact Text.not_mem_toString_int (by decide) (by decide)
  | small v => exact Text.not_mem_toString_nat (by decide)
  | upper v => exact Text.comma_not_mem_address v.toNat
  | target a => exact Text.comma_not_mem_address a.toNat
  | place v base =>
      simp only [text, String.toList_append, List.mem_append, not_or]
      exact ⟨⟨⟨Text.not_mem_toString_int (by decide) (by decide), by decide⟩,
        Registers.plain_name base⟩, by decide⟩
  | control n =>
      cases hn : Csr.ofNumber? n with
      | none =>
          rw [text_control_of_none hn]
          exact Text.comma_not_mem_address n.toNat
      | some c =>
          rw [text_control_of_some hn]
          cases c <;> decide

/-- A place is read back at its bracket: neither sign nor digits are one. -/
theorem text_place_inj {v v' : BitVec 12} {base base' : Reg}
    (h : (place v base).text = (place v' base').text) : v = v' ∧ base = base' := by
  have hbracket (v : BitVec 12) : '(' ∉ (toString v.toInt).toList :=
    Text.not_mem_toString_int (by decide) (by decide)
  have htext (v : BitVec 12) (base : Reg) : (place v base).text.toList =
      (toString v.toInt).toList ++ '(' :: ((Registers.name base).toList ++ [')']) := by
    simp [text]
  rw [← String.toList_inj, htext, htext] at h
  obtain ⟨hv, hbase⟩ := Text.append_mark_inj (hbracket v) (hbracket v') h
  exact ⟨BitVec.eq_of_toInt_eq (Text.toString_int_inj (String.toList_inj.mp hv)),
    Registers.name_inj base base' (String.toList_inj.mp (List.append_cancel_right hbase))⟩

/-- A control register is read back from its name if it has one, and from its number if not. -/
theorem text_control_inj {n n' : CsrNumber} (h : (control n).text = (control n').text) :
    n = n' := by
  cases hn : Csr.ofNumber? n with
  | none =>
      cases hn' : Csr.ofNumber? n' with
      | none =>
          rw [text_control_of_none hn, text_control_of_none hn'] at h
          exact BitVec.eq_of_toNat_eq (Text.address_inj h)
      | some c' =>
          rw [text_control_of_none hn, text_control_of_some hn'] at h
          exact absurd h.symm (c'.name_ne_address n.toNat)
  | some c =>
      cases hn' : Csr.ofNumber? n' with
      | none =>
          rw [text_control_of_some hn, text_control_of_none hn'] at h
          exact absurd h (c.name_ne_address n'.toNat)
      | some c' =>
          rw [text_control_of_some hn, text_control_of_some hn'] at h
          rw [← Csr.number_of_ofNumber? hn, Csr.name_inj h, Csr.number_of_ofNumber? hn']

/-- Operands of one kind. -/
inductive Alike : Operand → Operand → Prop
  | register (r r' : Reg) : Alike (register r) (register r')
  | signed (v v' : BitVec 12) : Alike (signed v) (signed v')
  | small (v v' : BitVec 5) : Alike (small v) (small v')
  | upper (v v' : BitVec 20) : Alike (upper v) (upper v')
  | target (a a' : Word) : Alike (target a) (target a')
  | place (v v' : BitVec 12) (base base' : Reg) : Alike (place v base) (place v' base')
  | control (n n' : CsrNumber) : Alike (control n) (control n')

/-- An operand of a known kind is read back. -/
theorem text_inj {x y : Operand} (hkind : Alike x y) (h : x.text = y.text) : x = y := by
  cases hkind with
  | register r r' => rw [Registers.name_inj r r' h]
  | signed v v' => rw [BitVec.eq_of_toInt_eq (Text.toString_int_inj h)]
  | small v v' => rw [BitVec.eq_of_toNat_eq (Text.repr_inj h)]
  | upper v v' => rw [BitVec.eq_of_toNat_eq (Text.address_inj h)]
  | target a a' => rw [BitVec.eq_of_toNat_eq (Text.address_inj h)]
  | place v v' base base' =>
      obtain ⟨rfl, rfl⟩ := text_place_inj h
      rfl
  | control n n' => rw [text_control_inj h]

/-- Operands are read back from a line, if their kinds are known. -/
theorem texts_inj {xs ys : List Operand} (hkinds : List.Forall₂ Alike xs ys)
    (h : String.intercalate ", " (xs.map text) = String.intercalate ", " (ys.map text)) :
    xs = ys := by
  have hplain (zs : List Operand) : ∀ s ∈ zs.map text, ',' ∉ s.toList := by
    intro s hs
    obtain ⟨z, -, rfl⟩ := List.mem_map.mp hs
    exact z.comma_not_mem_text
  have htexts := Text.intercalate_comma_inj (by simp [hkinds.length_eq]) (hplain xs) (hplain ys) h
  clear h
  induction hkinds with
  | nil => rfl
  | cons hkind _ ih =>
      obtain ⟨hhead, htail⟩ := List.cons.inj htexts
      rw [text_inj hkind hhead, ih htail]

end Operand

/-! ### Lines -/

theorem Operation.mnemonic_inj {op op' : Operation} (h : op.mnemonic = op'.mnemonic) : op = op' :=
  List.inj_on_of_nodup_map nodup_mnemonic op.mem_all op'.mem_all h

namespace Assembly

/-- The operation is read back from a line: its name ends at the first blank. -/
theorem operation_of_column {op op' : Operation} {operands operands' : String}
    (h : column op.mnemonic operands = column op'.mnemonic operands') : op = op' := by
  obtain ⟨hshort, hblank, -⟩ := op.plain_mnemonic
  obtain ⟨hshort', hblank', -⟩ := op'.plain_mnemonic
  obtain ⟨rest, htext⟩ := exists_toList_column hshort operands
  obtain ⟨rest', htext'⟩ := exists_toList_column hshort' operands'
  rw [h, htext'] at htext
  obtain ⟨hname, -⟩ := Text.append_mark_inj hblank' hblank htext
  exact (Operation.mnemonic_inj (String.toList_inj.mp hname)).symm

theorem column_ne_name {m operands : String} (ho : ¬operands.isEmpty) : column m operands ≠ m := by
  intro h
  unfold column Text.padRight at h
  rw [if_neg ho] at h
  have hlen := congrArg String.length h
  simp only [String.length_append] at hlen
  exact ho (String.isEmpty_iff.mpr (String.length_eq_zero_iff.mp (by omega)))

/-- What stands after a name is read back from a line. -/
theorem operands_of_column {m operands operands' : String}
    (h : column m operands = column m operands') : operands = operands' := by
  have hname {s : String} (hs : s.isEmpty) : column m s = m := if_pos hs
  by_cases ho : operands.isEmpty <;> by_cases ho' : operands'.isEmpty
  · rw [String.isEmpty_iff.mp ho, String.isEmpty_iff.mp ho']
  · exact absurd (h.symm.trans (hname ho)) (column_ne_name ho')
  · exact absurd (h.trans (hname ho')) (column_ne_name ho)
  · unfold column at h
    rw [if_neg ho, if_neg ho'] at h
    exact (String.append_right_inj _).mp h

end Assembly

end HomeComputer

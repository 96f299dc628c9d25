/-
Which payloads are which commands.

`Form` is the grammar of the commands: one rule for each, in which numbers and data are whatever
spells them.  A payload that has no form is refused in one of two ways, and `Refused` says which:
it began like a command with arguments, or it asks for something else.

A command's arguments are cut at the first mark, while the grammar only says that a mark stands
between them.  It is the same because no number contains a mark, so that a numeral ends at the
first one (`Hex.Numeral.not_mem`).

Everything is read as its form says (`parse_of_form`), and what is read has that form or was
refused (`parse_cases`).  As no form is one of a refusal, each of the two excludes the other.
-/
import HomeComputer.Proofs.Remote.Hexadecimal
import HomeComputer.Proofs.Memory.StoreBytes
import HomeComputer.Remote.Command

namespace HomeComputer

theorem Word.ofBytes?_eq_some_iff {bytes : List Byte} {w : Word} :
    ofBytes? bytes = some w ↔ bytes = w.bytes := by
  constructor
  · intro h
    match bytes with
    | [b₀, b₁, b₂, b₃] =>
        obtain rfl := Option.some.inj h
        exact (bytes_ofBytes b₀ b₁ b₂ b₃).symm
    | [] | [_] | [_, _] | [_, _, _] | _ :: _ :: _ :: _ :: _ :: _ => cases h
  · rintro rfl
    exact ofBytes?_bytes w

namespace Command

/-! ### The grammar -/

/-- A question that is always answered alike, with its answer. -/
inductive Question : List Byte → String → Prop
  | supported (rest : List Byte) : Question (Text.ascii "qSupported" ++ rest) "PacketSize=1000"
  | attached : Question (Text.ascii "qAttached") "1"
  | attachedTo (rest : List Byte) : Question (Text.ascii "qAttached:" ++ rest) "1"
  | traced : Question (Text.ascii "qTStatus") "T0"
  | thread : Question (Text.ascii "qC") "QC1"
  | offsets : Question (Text.ascii "qOffsets") "Text=0;Data=0;Bss=0"
  | symbols (rest : List Byte) : Question (Text.ascii "qSymbol" ++ rest) "OK"
  | threadToRead (rest : List Byte) : Question (Text.ascii "Hg" ++ rest) "OK"
  | threadToResume (rest : List Byte) : Question (Text.ascii "Hc" ++ rest) "OK"

/-- The payload `payload` has the form of the command. -/
inductive Form : List Byte → Command → Prop
  | canned {payload : List Byte} {reply : String} (h : Question payload reply) :
      Form payload (canned reply)
  | stopReason : Form (Text.ascii "?") stopReason
  | readRegisters : Form (Text.ascii "g") readRegisters
  | writeRegisters {d data : List Byte} (hd : Hex.Pairs d data) :
      Form (Text.ascii "G" ++ d) (writeRegisters data)
  | readRegister {r : List Byte} {number : Word} (hr : Hex.Numeral r number.toNat) :
      Form (Text.ascii "p" ++ r) (readRegister number)
  /-- The value is sent as its four bytes, low end first. -/
  | writeRegister {r v : List Byte} {number value : Word} (hr : Hex.Numeral r number.toNat)
      (hv : Hex.Pairs v value.bytes) :
      Form (Text.ascii "P" ++ (r ++ equals :: v)) (writeRegister number value)
  | readMemory {a l : List Byte} {addr len : Word} (ha : Hex.Numeral a addr.toNat)
      (hl : Hex.Numeral l len.toNat) :
      Form (Text.ascii "m" ++ (a ++ comma :: l)) (readMemory addr len)
  /-- The length that is announced is that of the data. -/
  | writeMemory {a l d data : List Byte} {addr len : Word} (ha : Hex.Numeral a addr.toNat)
      (hl : Hex.Numeral l len.toNat) (hd : Hex.Pairs d data) (hlen : data.length = len.toNat) :
      Form (Text.ascii "M" ++ (a ++ comma :: l ++ colon :: d)) (writeMemory addr data)
  | insertBreakpoint {a rest : List Byte} {addr : Word} (ha : Hex.Numeral a addr.toNat) :
      Form (Text.ascii "Z0," ++ (a ++ comma :: rest)) (insertBreakpoint addr)
  | removeBreakpoint {a rest : List Byte} {addr : Word} (ha : Hex.Numeral a addr.toNat) :
      Form (Text.ascii "z0," ++ (a ++ comma :: rest)) (removeBreakpoint addr)
  | resume : Form (Text.ascii "c") (resume none)
  | resumeAt {a : List Byte} {addr : Word} (ha : Hex.Numeral a addr.toNat) :
      Form (Text.ascii "c" ++ a) (resume (some addr))
  | step : Form (Text.ascii "s") (step none)
  | stepAt {a : List Byte} {addr : Word} (ha : Hex.Numeral a addr.toNat) :
      Form (Text.ascii "s" ++ a) (step (some addr))
  | detach (rest : List Byte) : Form (Text.ascii "D" ++ rest) detach
  | kill (rest : List Byte) : Form (Text.ascii "k" ++ rest) kill

/-- The payload begins like a command that has arguments. -/
def Begun (payload : List Byte) : Prop :=
  ∃ letter args, letter ∈ Text.ascii "GpPmMZzcs" ∧ payload = letter :: args

/-- The payload is about a breakpoint of a kind that is not known. -/
def OtherKind (payload : List Byte) : Prop :=
  ∃ letter kind rest, letter ∈ Text.ascii "Zz" ∧ comma ∉ kind ∧ kind ≠ Text.ascii "0" ∧
    payload = letter :: (kind ++ comma :: rest)

/-- How a payload that has no form is refused. -/
inductive Refused (payload : List Byte) : Command → Prop
  | arguments (hbegun : Begun payload) (hkind : ¬OtherKind payload) : Refused payload malformed
  | kind (hkind : OtherKind payload) : Refused payload unsupported
  | unknown (hbegun : ¬Begun payload) : Refused payload unsupported

theorem Form.not_refused {payload : List Byte} {c : Command} (h : Form payload c)
    (other : List Byte) : ¬Refused other c := by
  cases h <;> exact nofun

theorem Refused.unique {payload : List Byte} {c c' : Command} (h : Refused payload c)
    (h' : Refused payload c') : c = c' := by
  cases h with
  | arguments hbegun hkind =>
      cases h' with
      | arguments => rfl
      | kind hother => exact absurd hother hkind
      | unknown hunknown => exact absurd hbegun hunknown
  | kind hother =>
      cases h' with
      | arguments _ hkind => exact absurd hother hkind
      | kind | unknown => rfl
  | unknown hunknown =>
      cases h' with
      | arguments hbegun _ => exact absurd hbegun hunknown
      | kind | unknown => rfl

/-! ### Questions -/

theorem starts_iff {payload : List Byte} {s : String} :
    starts payload s = true ↔ ∃ rest, payload = Text.ascii s ++ rest := by
  unfold starts
  rw [List.isPrefixOf_iff_prefix]
  exact ⟨fun ⟨rest, h⟩ => ⟨rest, h.symm⟩, fun ⟨rest, h⟩ => ⟨rest, h.symm⟩⟩

theorem isText_iff {payload : List Byte} {s : String} :
    isText payload s = true ↔ payload = Text.ascii s := by
  unfold isText
  exact beq_iff_eq

theorem question_of_canned? {payload : List Byte} {reply : String}
    (h : canned? payload = some reply) : Question payload reply := by
  unfold canned? at h
  split at h
  case isTrue hsupported =>
    obtain rfl := Option.some.inj h
    obtain ⟨rest, rfl⟩ := starts_iff.mp hsupported
    exact .supported rest
  split at h
  case isTrue hattached =>
    obtain rfl := Option.some.inj h
    obtain halone | hto := Bool.or_eq_true_iff.mp hattached
    · rw [isText_iff.mp halone]
      exact .attached
    · obtain ⟨rest, rfl⟩ := starts_iff.mp hto
      exact .attachedTo rest
  split at h
  case isTrue htraced =>
    obtain rfl := Option.some.inj h
    rw [isText_iff.mp htraced]
    exact .traced
  split at h
  case isTrue hthread =>
    obtain rfl := Option.some.inj h
    rw [isText_iff.mp hthread]
    exact .thread
  split at h
  case isTrue hoffsets =>
    obtain rfl := Option.some.inj h
    rw [isText_iff.mp hoffsets]
    exact .offsets
  split at h
  case isTrue hsymbols =>
    obtain rfl := Option.some.inj h
    obtain ⟨rest, rfl⟩ := starts_iff.mp hsymbols
    exact .symbols rest
  split at h
  case isTrue hthreads =>
    obtain rfl := Option.some.inj h
    obtain hread | hresume := Bool.or_eq_true_iff.mp hthreads
    · obtain ⟨rest, rfl⟩ := starts_iff.mp hread
      exact .threadToRead rest
    · obtain ⟨rest, rfl⟩ := starts_iff.mp hresume
      exact .threadToResume rest
  cases h

theorem canned?_of_question {payload : List Byte} {reply : String} (h : Question payload reply) :
    canned? payload = some reply := by
  cases h <;> rfl

/-! ### Arguments -/

theorem splitOnce_eq_some_iff {mark : Byte} {bytes before after : List Byte} :
    splitOnce mark bytes = some (before, after) ↔
      mark ∉ before ∧ bytes = before ++ mark :: after := by
  induction bytes generalizing before with
  | nil => exact ⟨nofun, fun ⟨_, h⟩ => absurd h (by simp)⟩
  | cons b bytes ih =>
      unfold splitOnce
      by_cases hb : b = mark
      · rw [if_pos hb]
        constructor
        · intro h
          obtain ⟨rfl, rfl⟩ := Prod.mk.inj (Option.some.inj h)
          exact ⟨List.not_mem_nil, by rw [hb]; rfl⟩
        · rintro ⟨hmark, hbytes⟩
          cases before with
          | nil =>
              obtain ⟨-, rfl⟩ := List.cons.inj hbytes
              rfl
          | cons c before =>
              obtain ⟨rfl, -⟩ := List.cons.inj hbytes
              exact absurd (hb ▸ List.mem_cons_self) hmark
      · rw [if_neg hb, Option.map_eq_some_iff]
        constructor
        · rintro ⟨⟨front, back⟩, hrest, h⟩
          obtain ⟨rfl, rfl⟩ := Prod.mk.inj h
          obtain ⟨hmark, rfl⟩ := ih.mp hrest
          exact ⟨List.not_mem_cons_of_ne_of_not_mem (Ne.symm hb) hmark, rfl⟩
        · rintro ⟨hmark, hbytes⟩
          cases before with
          | nil => exact absurd (List.cons.inj hbytes).1 hb
          | cons c before =>
              obtain ⟨rfl, rfl⟩ := List.cons.inj hbytes
              rw [List.mem_cons, not_or] at hmark
              exact ⟨(before, after), ih.mpr ⟨hmark.2, rfl⟩, rfl⟩

theorem splitOnce_eq_none_iff {mark : Byte} {bytes : List Byte} :
    splitOnce mark bytes = none ↔ mark ∉ bytes := by
  constructor
  · intro h hmem
    obtain ⟨before, after, rfl, hmark⟩ := List.eq_append_cons_of_mem hmem
    rw [splitOnce_eq_some_iff.mpr ⟨hmark, rfl⟩] at h
    cases h
  · intro h
    cases hsplit : splitOnce mark bytes with
    | none => rfl
    | some parts =>
        obtain ⟨-, rfl⟩ := splitOnce_eq_some_iff.mp hsplit
        exact absurd (List.mem_append_right _ List.mem_cons_self) h

theorem addressLength?_eq_some_iff {args : List Byte} {addr len : Word} :
    addressLength? args = some (addr, len) ↔
      ∃ a l, Hex.Numeral a addr.toNat ∧ Hex.Numeral l len.toNat ∧ args = a ++ comma :: l := by
  simp only [addressLength?, Option.bind_eq_bind, Option.bind_eq_some_iff,
    Hex.number?_eq_some_iff]
  constructor
  · rintro ⟨⟨a, l⟩, hsplit, addr', ha, len', hl, h⟩
    obtain ⟨rfl, rfl⟩ := Prod.mk.inj (Option.some.inj h)
    exact ⟨a, l, ha, hl, (splitOnce_eq_some_iff.mp hsplit).2⟩
  · rintro ⟨a, l, ha, hl, rfl⟩
    exact ⟨(a, l), splitOnce_eq_some_iff.mpr ⟨ha.not_mem rfl, rfl⟩, addr, ha, len, hl, rfl⟩

theorem registerValue?_eq_some_iff {text : List Byte} {value : Word} :
    registerValue? text = some value ↔ Hex.Pairs text value.bytes := by
  simp only [registerValue?, Option.bind_eq_bind, Option.bind_eq_some_iff,
    Hex.decode?_eq_some_iff, Word.ofBytes?_eq_some_iff]
  constructor
  · rintro ⟨data, hdata, rfl⟩
    exact hdata
  · exact fun h => ⟨_, h, rfl⟩

theorem writeRegister?_eq_some_iff {args : List Byte} {c : Command} :
    writeRegister? args = some c ↔
      ∃ (r v : List Byte) (number value : Word), Hex.Numeral r number.toNat ∧
        Hex.Pairs v value.bytes ∧ args = r ++ equals :: v ∧ c = writeRegister number value := by
  simp only [writeRegister?, Option.bind_eq_bind, Option.bind_eq_some_iff,
    Hex.number?_eq_some_iff, registerValue?_eq_some_iff]
  constructor
  · rintro ⟨⟨r, v⟩, hsplit, number, hr, value, hv, h⟩
    exact ⟨r, v, number, value, hr, hv, (splitOnce_eq_some_iff.mp hsplit).2,
      (Option.some.inj h).symm⟩
  · rintro ⟨r, v, number, value, hr, hv, rfl, rfl⟩
    exact ⟨(r, v), splitOnce_eq_some_iff.mpr ⟨hr.not_mem rfl, rfl⟩, number, hr, value, hv, rfl⟩

theorem writeMemory?_eq_some_iff {args : List Byte} {c : Command} :
    writeMemory? args = some c ↔
      ∃ (a l d data : List Byte) (addr len : Word), Hex.Numeral a addr.toNat ∧
        Hex.Numeral l len.toNat ∧ Hex.Pairs d data ∧ data.length = len.toNat ∧
        args = a ++ comma :: l ++ colon :: d ∧ c = writeMemory addr data := by
  simp only [writeMemory?, Option.bind_eq_bind, Option.bind_eq_some_iff,
    Hex.decode?_eq_some_iff]
  constructor
  · rintro ⟨⟨range, d⟩, hsplit, ⟨addr, len⟩, hrange, data, hd, h⟩
    obtain ⟨a, l, ha, hl, rfl⟩ := addressLength?_eq_some_iff.mp hrange
    split at h
    · next hlen =>
        exact ⟨a, l, d, data, addr, len, ha, hl, hd, hlen, (splitOnce_eq_some_iff.mp hsplit).2,
          (Option.some.inj h).symm⟩
    · cases h
  · rintro ⟨a, l, d, data, addr, len, ha, hl, hd, hlen, rfl, rfl⟩
    have hrange : colon ∉ a ++ comma :: l := by
      rw [List.mem_append, List.mem_cons, not_or, not_or]
      exact ⟨ha.not_mem rfl, by decide, hl.not_mem rfl⟩
    exact ⟨(a ++ comma :: l, d), splitOnce_eq_some_iff.mpr ⟨hrange, rfl⟩, (addr, len),
      addressLength?_eq_some_iff.mpr ⟨a, l, ha, hl, rfl⟩, data, hd, if_pos hlen⟩

theorem optionalAddress?_some {a : List Byte} {addr : Word} (ha : Hex.Numeral a addr.toNat) :
    optionalAddress? a = some (some addr) := by
  unfold optionalAddress?
  rw [if_neg (by rw [List.isEmpty_iff]; exact ha.1), Hex.number?_eq_some_iff.mpr ha]
  rfl

theorem optionalAddress?_cases {a : List Byte} {target : Option Word}
    (h : optionalAddress? a = some target) :
    (a = [] ∧ target = none) ∨ ∃ addr : Word, Hex.Numeral a addr.toNat ∧ target = some addr := by
  unfold optionalAddress? at h
  split at h
  · next hempty =>
      exact .inl ⟨List.isEmpty_iff.mp hempty, (Option.some.inj h).symm⟩
  · obtain ⟨addr, ha, rfl⟩ := Option.map_eq_some_iff.mp h
    exact .inr ⟨addr, Hex.number?_eq_some_iff.mp ha, rfl⟩

/-- A breakpoint of the known kind at the address up to the next mark. -/
theorem breakpoint_of_numeral (make : Word → Command) {a rest : List Byte} {addr : Word}
    (ha : Hex.Numeral a addr.toNat) :
    breakpoint make (Text.ascii "0," ++ (a ++ comma :: rest)) = make addr := by
  have hkind : splitOnce comma (Text.ascii "0," ++ (a ++ comma :: rest)) =
      some (Text.ascii "0", a ++ comma :: rest) :=
    splitOnce_eq_some_iff.mpr ⟨by decide, rfl⟩
  have haddr : splitOnce comma (a ++ comma :: rest) = some (a, rest) :=
    splitOnce_eq_some_iff.mpr ⟨ha.not_mem rfl, rfl⟩
  have hzero : isText (Text.ascii "0") "0" = true := rfl
  simp only [breakpoint, hkind, hzero, if_true, haddr, Option.bind_some,
    Hex.number?_eq_some_iff.mpr ha]

/-! ### What is read -/

/-- A payload that has a form is read so. -/
theorem parse_of_form {payload : List Byte} {c : Command} (h : Form payload c) :
    parse payload = c := by
  cases h with
  | canned h =>
      unfold parse
      rw [canned?_of_question h]
  | stopReason | readRegisters | resume | step | detach | kill => rfl
  | @writeRegisters d data hd =>
      show ((Hex.decode? d).map Command.writeRegisters).getD malformed = _
      rw [Hex.decode?_eq_some_iff.mpr hd]
      rfl
  | @readRegister r number hr =>
      show ((Hex.number? r).map Command.readRegister).getD malformed = _
      rw [Hex.number?_eq_some_iff.mpr hr]
      rfl
  | @writeRegister r v number value hr hv =>
      show (writeRegister? (r ++ equals :: v)).getD malformed = _
      rw [writeRegister?_eq_some_iff.mpr ⟨r, v, number, value, hr, hv, rfl, rfl⟩]
      rfl
  | @readMemory a l addr len ha hl =>
      show ((addressLength? (a ++ comma :: l)).map fun p => Command.readMemory p.1 p.2).getD
        malformed = _
      rw [addressLength?_eq_some_iff.mpr ⟨a, l, ha, hl, rfl⟩]
      rfl
  | @writeMemory a l d data addr len ha hl hd hlen =>
      show (writeMemory? (a ++ comma :: l ++ colon :: d)).getD malformed = _
      rw [writeMemory?_eq_some_iff.mpr ⟨a, l, d, data, addr, len, ha, hl, hd, hlen, rfl, rfl⟩]
      rfl
  | insertBreakpoint ha => exact breakpoint_of_numeral Command.insertBreakpoint ha
  | removeBreakpoint ha => exact breakpoint_of_numeral Command.removeBreakpoint ha
  | @resumeAt a addr ha =>
      show ((optionalAddress? a).map Command.resume).getD malformed = _
      rw [optionalAddress?_some ha]
      rfl
  | @stepAt a addr ha =>
      show ((optionalAddress? a).map Command.step).getD malformed = _
      rw [optionalAddress?_some ha]
      rfl

/-! ### Forms and refusals are everything -/

/-- A byte is known by the character that it is looked at as. -/
theorem letter_of_char {letter : Byte} {c : Char} (h : Char.ofNat letter.toNat = c) :
    letter = BitVec.ofNat 8 c.toNat := by
  have hlt := letter.isLt
  have hvalid : letter.toNat.isValidChar := .inl (by omega)
  have hnumber : (Char.ofNat letter.toNat).toNat = letter.toNat := by
    unfold Char.ofNat
    rw [dif_pos hvalid]
    rfl
  rw [← h, hnumber, BitVec.ofNat_toNat, BitVec.setWidth_eq]

theorem not_otherKind {letter : Byte} {args : List Byte} (h : letter ∉ Text.ascii "Zz") :
    ¬OtherKind (letter :: args) := by
  rintro ⟨_, kind, rest, hletter, -, -, heq⟩
  obtain ⟨rfl, -⟩ := List.cons.inj heq
  exact h hletter

/-- Arguments that are read as a whole have the form of their command or are refused. -/
theorem arguments_cases {letter : Byte} {args : List Byte} {read : Option Command}
    (hletter : letter ∈ Text.ascii "GpPmMcs")
    (hform : ∀ c, read = some c → Form (letter :: args) c) :
    Form (letter :: args) (read.getD malformed) ∨
      Refused (letter :: args) (read.getD malformed) := by
  cases read with
  | some c => exact .inl (hform c rfl)
  | none =>
      have hknown : ∀ b ∈ Text.ascii "GpPmMcs",
          b ∈ Text.ascii "GpPmMZzcs" ∧ b ∉ Text.ascii "Zz" := by decide
      obtain ⟨hbegun, hkind⟩ := hknown letter hletter
      exact .inr (.arguments ⟨letter, args, hbegun, rfl⟩ (not_otherKind hkind))

/-- The first mark ends the kind of a breakpoint, the second one its address. -/
theorem breakpoint_cases {letter : Byte} {args : List Byte} {make : Word → Command}
    (hletter : letter ∈ Text.ascii "Zz")
    (hform : ∀ (a rest : List Byte) (addr : Word), Hex.Numeral a addr.toNat →
      Form (letter :: (Text.ascii "0," ++ (a ++ comma :: rest))) (make addr)) :
    Form (letter :: args) (breakpoint make args) ∨
      Refused (letter :: args) (breakpoint make args) := by
  have hknown : ∀ b ∈ Text.ascii "Zz", b ∈ Text.ascii "GpPmMZzcs" := by decide
  have hbegun : Begun (letter :: args) := ⟨letter, args, hknown letter hletter, rfl⟩
  unfold breakpoint
  cases hsplit : splitOnce comma args with
  | none =>
      refine .inr (.arguments hbegun ?_)
      rintro ⟨_, kind, rest, -, -, -, heq⟩
      obtain ⟨-, rfl⟩ := List.cons.inj heq
      exact splitOnce_eq_none_iff.mp hsplit (by simp)
  | some parts =>
      obtain ⟨kind, rest⟩ := parts
      obtain ⟨hmark, rfl⟩ := splitOnce_eq_some_iff.mp hsplit
      dsimp only
      split
      case isFalse hkind =>
        rw [isText_iff] at hkind
        exact .inr (.kind ⟨letter, kind, rest, hletter, hmark, hkind, rfl⟩)
      case isTrue hkind =>
        obtain rfl := isText_iff.mp hkind
        have hsame : ¬OtherKind (letter :: (Text.ascii "0" ++ comma :: rest)) := by
          rintro ⟨_, other, after, -, hother, hne, heq⟩
          have hcut := splitOnce_eq_some_iff.mpr ⟨hother, (List.cons.inj heq).2⟩
          rw [hsplit] at hcut
          exact hne (Prod.mk.inj (Option.some.inj hcut)).1.symm
        cases haddr : (splitOnce comma rest).bind fun p => Hex.number? p.1 with
        | none => exact .inr (.arguments hbegun hsame)
        | some addr =>
            obtain ⟨⟨a, after⟩, hcut, ha⟩ := Option.bind_eq_some_iff.mp haddr
            obtain ⟨-, rfl⟩ := splitOnce_eq_some_iff.mp hcut
            exact .inl (hform a after addr (Hex.number?_eq_some_iff.mp ha))

theorem ofLetter_cases (letter : Byte) (args : List Byte) :
    Form (letter :: args) (ofLetter (Char.ofNat letter.toNat) args) ∨
      Refused (letter :: args) (ofLetter (Char.ofNat letter.toNat) args) := by
  have hunknown (hletter : letter ∉ Text.ascii "GpPmMZzcs") :
      Refused (letter :: args) unsupported := by
    refine .unknown ?_
    rintro ⟨_, _, hbegun, heq⟩
    exact hletter ((List.cons.inj heq).1 ▸ hbegun)
  generalize hc : Char.ofNat letter.toNat = c
  have hbyte := letter_of_char hc
  unfold ofLetter
  split
  case h_1 =>
    obtain rfl : letter = BitVec.ofNat 8 '?'.toNat := hbyte
    split
    · next hempty =>
        obtain rfl := List.isEmpty_iff.mp hempty
        exact .inl .stopReason
    · exact .inr (hunknown (by decide))
  case h_2 =>
    obtain rfl : letter = BitVec.ofNat 8 'g'.toNat := hbyte
    split
    · next hempty =>
        obtain rfl := List.isEmpty_iff.mp hempty
        exact .inl .readRegisters
    · exact .inr (hunknown (by decide))
  case h_3 =>
    obtain rfl : letter = BitVec.ofNat 8 'G'.toNat := hbyte
    refine arguments_cases (by decide) fun c h => ?_
    obtain ⟨data, hdata, rfl⟩ := Option.map_eq_some_iff.mp h
    exact .writeRegisters (Hex.decode?_eq_some_iff.mp hdata)
  case h_4 =>
    obtain rfl : letter = BitVec.ofNat 8 'p'.toNat := hbyte
    refine arguments_cases (by decide) fun c h => ?_
    obtain ⟨number, hnumber, rfl⟩ := Option.map_eq_some_iff.mp h
    exact .readRegister (Hex.number?_eq_some_iff.mp hnumber)
  case h_5 =>
    obtain rfl : letter = BitVec.ofNat 8 'P'.toNat := hbyte
    refine arguments_cases (by decide) fun c h => ?_
    obtain ⟨r, v, number, value, hr, hv, rfl, rfl⟩ := writeRegister?_eq_some_iff.mp h
    exact .writeRegister hr hv
  case h_6 =>
    obtain rfl : letter = BitVec.ofNat 8 'm'.toNat := hbyte
    refine arguments_cases (by decide) fun c h => ?_
    obtain ⟨⟨addr, len⟩, hrange, rfl⟩ := Option.map_eq_some_iff.mp h
    obtain ⟨a, l, ha, hl, rfl⟩ := addressLength?_eq_some_iff.mp hrange
    exact .readMemory ha hl
  case h_7 =>
    obtain rfl : letter = BitVec.ofNat 8 'M'.toNat := hbyte
    refine arguments_cases (by decide) fun c h => ?_
    obtain ⟨a, l, d, data, addr, len, ha, hl, hd, hlen, rfl, rfl⟩ :=
      writeMemory?_eq_some_iff.mp h
    exact .writeMemory ha hl hd hlen
  case h_8 =>
    obtain rfl : letter = BitVec.ofNat 8 'Z'.toNat := hbyte
    exact breakpoint_cases (by decide) fun a rest addr ha => .insertBreakpoint ha
  case h_9 =>
    obtain rfl : letter = BitVec.ofNat 8 'z'.toNat := hbyte
    exact breakpoint_cases (by decide) fun a rest addr ha => .removeBreakpoint ha
  case h_10 =>
    obtain rfl : letter = BitVec.ofNat 8 'c'.toNat := hbyte
    refine arguments_cases (by decide) fun c h => ?_
    obtain ⟨target, htarget, rfl⟩ := Option.map_eq_some_iff.mp h
    obtain ⟨rfl, rfl⟩ | ⟨addr, ha, rfl⟩ := optionalAddress?_cases htarget
    · exact .resume
    · exact .resumeAt ha
  case h_11 =>
    obtain rfl : letter = BitVec.ofNat 8 's'.toNat := hbyte
    refine arguments_cases (by decide) fun c h => ?_
    obtain ⟨target, htarget, rfl⟩ := Option.map_eq_some_iff.mp h
    obtain ⟨rfl, rfl⟩ | ⟨addr, ha, rfl⟩ := optionalAddress?_cases htarget
    · exact .step
    · exact .stepAt ha
  case h_12 =>
    obtain rfl : letter = BitVec.ofNat 8 'D'.toNat := hbyte
    exact .inl (.detach args)
  case h_13 =>
    obtain rfl : letter = BitVec.ofNat 8 'k'.toNat := hbyte
    exact .inl (.kill args)
  case h_14 hother =>
    refine .inr (hunknown fun hletter => ?_)
    have hback : ∀ b ∈ Text.ascii "GpPmMZzcs",
        Char.ofNat b.toNat ∈ ['G', 'p', 'P', 'm', 'M', 'Z', 'z', 'c', 's'] := by decide
    have hmem := hback letter hletter
    rw [hc] at hmem
    simp only [List.mem_cons, List.not_mem_nil, or_false] at hmem
    rcases hmem with rfl | rfl | rfl | rfl | rfl | rfl | rfl | rfl | rfl <;> contradiction

/-- A payload has a form and is read so, or it is refused. -/
theorem parse_cases (payload : List Byte) :
    Form payload (parse payload) ∨ Refused payload (parse payload) := by
  unfold parse
  cases hcanned : canned? payload with
  | some reply => exact .inl (.canned (question_of_canned? hcanned))
  | none =>
      cases payload with
      | nil => exact .inr (.unknown fun ⟨_, _, _, h⟩ => nomatch h)
      | cons letter args => exact ofLetter_cases letter args

/-- **A payload is read as a command exactly if it has the command's form, or has no form and is
refused with that command**: with arguments that do not fit if it begins like a command that has
some, and as unknown if it does not, or if it is about another kind of breakpoint. -/
theorem parse_eq_iff_grammar (payload : List Byte) (c : Command) :
    parse payload = c ↔ Form payload c ∨ Refused payload c ∧ ∀ c', ¬Form payload c' := by
  constructor
  · rintro rfl
    refine (parse_cases payload).imp_right fun hrefused => ⟨hrefused, fun c' hform => ?_⟩
    rw [parse_of_form hform] at hrefused
    exact hform.not_refused payload hrefused
  · rintro (hform | ⟨hrefused, hnone⟩)
    · exact parse_of_form hform
    · obtain hform | hparse := parse_cases payload
      · exact absurd hform (hnone _)
      · exact hparse.unique hrefused

end Command

end HomeComputer

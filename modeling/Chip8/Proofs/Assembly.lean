import Chip8.LogRecord
import Chip8.Proofs.Numerals

namespace Chip8

/-- The words of an assembly text. Blanks part them, and commas belong to none of them. -/
def textWords (s : String) : List String :=
  ((s.toList.filter (· != ',')).splitOn ' ').map String.ofList

def lineOf : List String → String
  | [] => ""
  | [mnemonic] => mnemonic
  | mnemonic :: operands => mnemonic ++ " " ++ ", ".intercalate operands

def IsWord (s : String) : Prop := ∀ c ∈ s.toList, c ≠ ' ' ∧ c ≠ ','

instance (s : String) : Decidable (IsWord s) :=
  List.decidableBAll (fun c ↦ c ≠ ' ' ∧ c ≠ ',') s.toList

/-- An operand as it is read: a register, a number in hexadecimal digits, or anything else by its
name. -/
inductive Operand where
  | register (x : Register)
  | number (n : Nat)
  | name (s : String)

def Operand.ofText (s : String) : Operand :=
  match s.toList with
  | ['V', c] => .register (.ofNibble (Numeral.value [c]))
  | '0' :: 'x' :: cs => .number (Numeral.value cs)
  | _ => .name s

namespace Instruction

def words : Instruction → List String
  | clearScreen => ["CLS"]
  | ret => ["RET"]
  | jump target => ["JP", Numeral.marked 3 target.toNat]
  | call target => ["CALL", Numeral.marked 3 target.toNat]
  | skip (.equalsByte x value) => ["SE", x.name, Numeral.marked 2 value.toNat]
  | skip (.differsFromByte x value) => ["SNE", x.name, Numeral.marked 2 value.toNat]
  | skip (.equalsRegister x y) => ["SE", x.name, y.name]
  | skip (.differsFromRegister x y) => ["SNE", x.name, y.name]
  | skip (.keyPressed x) => ["SKP", x.name]
  | skip (.keyReleased x) => ["SKNP", x.name]
  | setByte x value => ["LD", x.name, Numeral.marked 2 value.toNat]
  | addByte x value => ["ADD", x.name, Numeral.marked 2 value.toNat]
  | compute op x y => [op.mnemonic, x.name, y.name]
  | setIndex address => ["LD", "I", Numeral.marked 3 address.toNat]
  | jumpWithOffset address =>
    ["JP", "V0/" ++ (offsetRegister address).name, Numeral.marked 3 address.toNat]
  | random x mask => ["RND", x.name, Numeral.marked 2 mask.toNat]
  | draw x y height => ["DRW", x.name, y.name, toString height.toNat]
  | readDelay x => ["LD", x.name, "DT"]
  | waitForKey x => ["LD", x.name, "K"]
  | setDelay x => ["LD", "DT", x.name]
  | setSound x => ["LD", "ST", x.name]
  | addToIndex x => ["ADD", "I", x.name]
  | selectGlyph x => ["LD", "F", x.name]
  | storeDecimal x => ["LD", "B", x.name]
  | storeRegisters x => ["LD", "[I]", x.name]
  | loadRegisters x => ["LD", x.name, "[I]"]
  | unknown word => ["DATA", Numeral.marked 4 word.toNat]

def operations : List Operation :=
  [.copy, .or, .and, .xor, .add, .sub, .shiftRight, .subReverse, .shiftLeft]

def assemble? (mnemonic : String) : List Operand → Option Instruction
  | [] =>
    match mnemonic with
    | "CLS" => some clearScreen
    | "RET" => some ret
    | _ => none
  | [.number n] =>
    match mnemonic with
    | "JP" => some (jump (.ofNat n))
    | "CALL" => some (call (.ofNat n))
    | "DATA" => some (unknown (.ofNat n))
    | _ => none
  | [.register x] =>
    match mnemonic with
    | "SKP" => some (skip (.keyPressed x))
    | "SKNP" => some (skip (.keyReleased x))
    | _ => none
  | [.register x, .number n] =>
    match mnemonic with
    | "SE" => some (skip (.equalsByte x (.ofNat n)))
    | "SNE" => some (skip (.differsFromByte x (.ofNat n)))
    | "LD" => some (setByte x (.ofNat n))
    | "ADD" => some (addByte x (.ofNat n))
    | "RND" => some (random x (.ofNat n))
    | _ => none
  | [.register x, .register y] =>
    match mnemonic with
    | "SE" => some (skip (.equalsRegister x y))
    | "SNE" => some (skip (.differsFromRegister x y))
    | _ => (operations.find? (·.mnemonic == mnemonic)).map (compute · x y)
  | [.name _, .number n] =>
    match mnemonic with
    | "LD" => some (setIndex (.ofNat n))
    | "JP" => some (jumpWithOffset (.ofNat n))
    | _ => none
  | [.name place, .register x] =>
    match mnemonic, place with
    | "LD", "DT" => some (setDelay x)
    | "LD", "ST" => some (setSound x)
    | "ADD", "I" => some (addToIndex x)
    | "LD", "F" => some (selectGlyph x)
    | "LD", "B" => some (storeDecimal x)
    | "LD", "[I]" => some (storeRegisters x)
    | _, _ => none
  | [.register x, .name place] =>
    match mnemonic, place with
    | "LD", "DT" => some (readDelay x)
    | "LD", "K" => some (waitForKey x)
    | "LD", "[I]" => some (loadRegisters x)
    | _, _ => none
  | [.register x, .register y, .name height] =>
    match mnemonic with
    | "DRW" => some (draw x y (.ofNat (Nat.ofDigitChars 10 height.toList 0)))
    | _ => none
  | _ => none

def ofText? (s : String) : Option Instruction :=
  match textWords s with
  | [] => none
  | mnemonic :: operands => assemble? mnemonic (operands.map Operand.ofText)

end Instruction

section Words

theorem isWord_of_digits {s : String} (h : ∀ c ∈ s.toList, Numeral.digitValue? c ≠ none) :
    IsWord s := by
  have hblank : Numeral.digitValue? ' ' = none := by decide
  have hcomma : Numeral.digitValue? ',' = none := by decide
  intro c hc
  exact ⟨fun he ↦ h c hc (he ▸ hblank), fun he ↦ h c hc (he ▸ hcomma)⟩

theorem IsWord.append {s t : String} (hs : IsWord s) (ht : IsWord t) : IsWord (s ++ t) := by
  intro c hc
  rw [String.toList_append, List.mem_append] at hc
  exact hc.elim (hs c) (ht c)

theorem isWord_hex (width n : Nat) : IsWord (Numeral.hex width n) :=
  isWord_of_digits fun _ ↦ Numeral.digitValue?_ne_none

theorem isWord_marked (width n : Nat) : IsWord (Numeral.marked width n) :=
  .append (by decide) (isWord_hex width n)

theorem isWord_name (x : Register) : IsWord x.name := .append (by decide) (isWord_hex 1 x.val)

theorem isDigit_of_mem_repr {c : Char} {n : Nat} (h : c ∈ n.repr.toList) : c.isDigit = true := by
  rw [Nat.toList_repr] at h
  exact Nat.isDigit_of_mem_toDigits (by decide) (by decide) h

theorem isWord_repr (n : Nat) : IsWord n.repr := by
  intro c hc
  have hdigit := isDigit_of_mem_repr hc
  constructor <;> rintro rfl <;> cases hdigit

theorem isWord_mnemonic (op : Operation) : IsWord op.mnemonic := by cases op <;> decide

theorem filter_eq_self_of_isWord {s : String} (h : IsWord s) :
    s.toList.filter (· != ',') = s.toList :=
  List.filter_eq_self.mpr fun c hc ↦ bne_iff_ne.mpr (h c hc).2

theorem textWords_of_isWord {s : String} (h : IsWord s) : textWords s = [s] := by
  have hblank : ' ' ∉ s.toList := fun hc ↦ (h ' ' hc).1 rfl
  rw [textWords, filter_eq_self_of_isWord h, List.splitOn_eq_singleton hblank, List.map_singleton,
    String.ofList_toList]

theorem textWords_append {separator s : String} (h : IsWord s) (t : String)
    (hseparator : separator.toList.filter (· != ',') = [' ']) :
    textWords (s ++ separator ++ t) = s :: textWords t := by
  have hblank : ' ' ∉ s.toList := fun hc ↦ (h ' ' hc).1 rfl
  rw [textWords, String.toList_append, String.toList_append, List.filter_append, List.filter_append,
    filter_eq_self_of_isWord h, hseparator, List.append_assoc, List.singleton_append,
    List.splitOn_append_cons_self_of_not_mem hblank, List.map_cons, String.ofList_toList, textWords]

theorem textWords_intercalate {s : String} {ws : List String} (h : ∀ t ∈ s :: ws, IsWord t) :
    textWords (", ".intercalate (s :: ws)) = s :: ws := by
  induction ws generalizing s with
  | nil => exact textWords_of_isWord (h s List.mem_cons_self)
  | cons t ws ih =>
    obtain ⟨hs, hws⟩ := List.forall_mem_cons.mp h
    rw [String.intercalate_cons_cons, textWords_append hs _ (by decide), ih hws]

theorem textWords_lineOf {ws : List String} (hne : ws ≠ []) (h : ∀ s ∈ ws, IsWord s) :
    textWords (lineOf ws) = ws := by
  match ws with
  | [] => exact absurd rfl hne
  | [mnemonic] => exact textWords_of_isWord (h mnemonic List.mem_cons_self)
  | mnemonic :: operand :: operands =>
    obtain ⟨hmnemonic, hoperands⟩ := List.forall_mem_cons.mp h
    rw [lineOf, textWords_append hmnemonic _ (by decide), textWords_intercalate hoperands]
    nofun

end Words

namespace Operand

@[simp] theorem ofText_name (x : Register) : ofText x.name = .register x := by
  rw [ofText, Register.toList_name]
  simp only [Numeral.value_hexDigit x.isLt, Register.ofNibble, Nat.mod_eq_of_lt x.isLt]

@[simp] theorem ofText_marked (width n : Nat) :
    ofText (Numeral.marked width n) = .number n := by
  rw [ofText, Numeral.toList_marked]
  simp only [Numeral.value_hex]

@[simp] theorem ofText_repr (n : Nat) : ofText n.repr = name n.repr := by
  rw [ofText]
  split
  next c h =>
    have hdigit : 'V'.isDigit = true := isDigit_of_mem_repr (h ▸ List.mem_cons_self)
    cases hdigit
  next cs h =>
    have hdigit : 'x'.isDigit = true :=
      isDigit_of_mem_repr (h ▸ List.mem_cons_of_mem '0' List.mem_cons_self)
    cases hdigit
  next => rfl

@[simp] theorem ofText_offset (x : Register) :
    ofText ("V0/" ++ x.name) = .name ("V0/" ++ x.name) := by
  rw [ofText, String.toList_append, Register.toList_name]
  rfl

@[simp] theorem ofText_symbol {s : String} (h : s ∈ ["I", "DT", "ST", "K", "F", "B", "[I]"]) :
    ofText s = .name s := by
  simp only [List.mem_cons, List.not_mem_nil, or_false] at h
  rcases h with rfl | rfl | rfl | rfl | rfl | rfl | rfl <;> rfl

end Operand

namespace Instruction

theorem text_eq_lineOf (i : Instruction) : i.text = lineOf i.words := by
  cases i
  case skip condition =>
    cases condition <;> simp [text, Condition.text, words, lineOf, ← String.toList_inj]
  all_goals simp [text, words, lineOf, ← String.toList_inj]

theorem isWord_words (i : Instruction) : ∀ s ∈ i.words, IsWord s := by
  cases i
  case skip condition => cases condition <;> simp +decide [words, isWord_name, isWord_marked]
  case jumpWithOffset address =>
    have hregister : IsWord ("V0/" ++ (offsetRegister address).name) :=
      .append (by decide) (isWord_name _)
    simp +decide [words, isWord_marked, hregister]
  all_goals simp +decide [words, isWord_name, isWord_marked, isWord_repr, isWord_mnemonic]

theorem words_ne_nil (i : Instruction) : i.words ≠ [] := by
  cases i
  case skip condition => cases condition <;> nofun
  all_goals nofun

theorem textWords_text (i : Instruction) : textWords i.text = i.words := by
  rw [text_eq_lineOf, textWords_lineOf i.words_ne_nil i.isWord_words]

theorem ofText?_text (i : Instruction) : ofText? i.text = some i := by
  rw [ofText?, textWords_text]
  -- The kinds of the operands and the mnemonic leave one entry of the table.
  cases i
  case skip condition => cases condition <;> simp [words, assemble?]
  case compute op x y => cases op <;> simp [words, assemble?, operations, Operation.mnemonic]
  all_goals simp [words, assemble?]

theorem text_inj {i j : Instruction} : i.text = j.text ↔ i = j := by
  refine ⟨fun h ↦ ?_, congrArg text⟩
  have hread := congrArg ofText? h
  rwa [ofText?_text, ofText?_text, Option.some_inj] at hread

end Instruction

theorem Numeral.marked_inj {width m n : Nat} : marked width m = marked width n ↔ m = n := by
  refine ⟨fun h ↦ ?_, congrArg (marked width)⟩
  have hread := congrArg Operand.ofText h
  rwa [Operand.ofText_marked, Operand.ofText_marked, Operand.number.injEq] at hread

theorem LogRecord.textWords_retired (address : UInt16) (i : Instruction) :
    textWords (retired address i).text =
      "TRACE" :: (Numeral.marked 3 address.toNat ++ ":") :: i.words := by
  have htext : (retired address i).text =
      "TRACE" ++ " " ++ (Numeral.marked 3 address.toNat ++ (":" ++ " ") ++ i.text) := rfl
  have haddress : IsWord (Numeral.marked 3 address.toNat ++ ":") :=
    (isWord_marked 3 _).append (by decide)
  rw [htext, textWords_append (by decide) _ (by decide), ← String.append_assoc,
    textWords_append haddress _ (by decide), Instruction.textWords_text]

/-- An assembly text belongs to one instruction alone, and a trace record to one instruction at one
address. -/
theorem Instruction.text_identifies_instruction (i j : Instruction) :
    (i.text = j.text ↔ i = j) ∧
      ∀ a b : UInt16,
        (LogRecord.retired a i).text = (LogRecord.retired b j).text ↔ a = b ∧ i = j := by
  refine ⟨text_inj, fun a b ↦ ⟨fun h ↦ ?_, ?_⟩⟩
  · have hwords := congrArg textWords h
    rw [LogRecord.textWords_retired, LogRecord.textWords_retired, List.cons.injEq,
      List.cons.injEq] at hwords
    obtain ⟨-, haddress, hinstruction⟩ := hwords
    rw [String.append_left_inj, Numeral.marked_inj, UInt16.toNat_inj] at haddress
    refine ⟨haddress, text_inj.mp ?_⟩
    rw [text_eq_lineOf, hinstruction, ← text_eq_lineOf]
  · rintro ⟨rfl, rfl⟩
    rfl

end Chip8

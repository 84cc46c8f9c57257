import Chip8.Proofs.ControlFlow
import Chip8.Proofs.Numerals
import Mathlib.Data.List.Forall2

namespace Chip8

def Operation.digit : Operation → Nat
  | copy => 0x0
  | or => 0x1
  | and => 0x2
  | xor => 0x3
  | add => 0x4
  | sub => 0x5
  | shiftRight => 0x6
  | subReverse => 0x7
  | shiftLeft => 0xE

def Condition.opcode : Condition → Nat
  | equalsByte x value => 0x3000 + 256 * x.val + value.toNat
  | differsFromByte x value => 0x4000 + 256 * x.val + value.toNat
  | equalsRegister x y => 0x5000 + 256 * x.val + 16 * y.val
  | differsFromRegister x y => 0x9000 + 256 * x.val + 16 * y.val
  | keyPressed x => 0xE000 + 256 * x.val + 0x9E
  | keyReleased x => 0xE000 + 256 * x.val + 0xA1

namespace Instruction

def opcode : Instruction → Nat
  | clearScreen => 0x00E0
  | ret => 0x00EE
  | jump target => 0x1000 + target.toNat
  | call target => 0x2000 + target.toNat
  | skip condition => condition.opcode
  | setByte x value => 0x6000 + 256 * x.val + value.toNat
  | addByte x value => 0x7000 + 256 * x.val + value.toNat
  | compute op x y => 0x8000 + 256 * x.val + 16 * y.val + op.digit
  | setIndex address => 0xA000 + address.toNat
  | jumpWithOffset address => 0xB000 + address.toNat
  | random x mask => 0xC000 + 256 * x.val + mask.toNat
  | draw x y height => 0xD000 + 256 * x.val + 16 * y.val + height.toNat
  | readDelay x => 0xF000 + 256 * x.val + 0x07
  | waitForKey x => 0xF000 + 256 * x.val + 0x0A
  | setDelay x => 0xF000 + 256 * x.val + 0x15
  | setSound x => 0xF000 + 256 * x.val + 0x18
  | addToIndex x => 0xF000 + 256 * x.val + 0x1E
  | selectGlyph x => 0xF000 + 256 * x.val + 0x29
  | storeDecimal x => 0xF000 + 256 * x.val + 0x33
  | storeRegisters x => 0xF000 + 256 * x.val + 0x55
  | loadRegisters x => 0xF000 + 256 * x.val + 0x65
  | unknown word => word.toNat

def digits (w : UInt16) : List Nat :=
  [w.toNat / 4096, w.toNat / 256 % 16, w.toNat / 16 % 16, w.toNat % 16]

/-- A word fits a pattern if it has the digits that the pattern gives; the other characters of a
pattern stand for any digit. -/
def Fits (w : UInt16) (pattern : String) : Prop :=
  List.Forall₂ (fun c d ↦ ∀ v ∈ Numeral.digitValue? c, d = v) pattern.toList (digits w)

instance (w : UInt16) (pattern : String) : Decidable (Fits w pattern) :=
  inferInstanceAs (Decidable (List.Forall₂ ..))

def patterns : List String :=
  ["00E0", "00EE", "1NNN", "2NNN", "3XNN", "4XNN", "5XY_", "6XNN", "7XNN", "8XY0", "8XY1", "8XY2",
   "8XY3", "8XY4", "8XY5", "8XY6", "8XY7", "8XYE", "9XY_", "ANNN", "BNNN", "CXNN", "DXYN", "EX9E",
   "EXA1", "FX07", "FX0A", "FX15", "FX18", "FX1E", "FX29", "FX33", "FX55", "FX65"]

variable {w v : UInt16} {x : Register} {n : Nat} {i : Instruction} {o : Option Instruction}

section Opcode

theorem digit_of_operation? {op : Operation} (h : operation? n = some op) : op.digit = n := by
  simp only [operation?] at h
  split at h <;> cases h <;> rfl

theorem opcode_of_plain? (h : plain? n = some i) : i.opcode = n := by
  simp only [plain?] at h
  split at h <;> cases h <;> rfl

theorem opcode_of_keySkip? (h : keySkip? x n = some i) : i.opcode = 0xE000 + 256 * x.val + n := by
  simp only [keySkip?] at h
  split at h <;> cases h <;> rfl

theorem opcode_of_transfer? (h : transfer? x n = some i) : i.opcode = 0xF000 + 256 * x.val + n := by
  simp only [transfer?] at h
  split at h <;> cases h <;> rfl

theorem opcode_getD (h : ∀ i ∈ o, i.opcode = w.toNat) :
    (o.getD (.unknown w)).opcode = w.toNat := by
  cases o with
  | none => rfl
  | some i => exact h i rfl

theorem toNat_byteField (w : UInt16) : (byteField w).toNat = w.toNat % 256 := by
  rw [byteField, UInt8.toNat_ofNat']
  omega

/-- Written back, a decoded word is as it was, but for the last digit of a register comparison. -/
theorem opcode_decode (w : UInt16) : (decode w).opcode =
    if w.toNat / 4096 = 5 ∨ w.toNat / 4096 = 9 then w.toNat / 16 * 16 else w.toNat := by
  have hx : (xField w).val = w.toNat / 256 % 16 := rfl
  have hy : (yField w).val = w.toNat / 16 % 16 := rfl
  have hbyte := toNat_byteField w
  have haddress := toNat_addressField w
  have hnibble : (UInt8.ofNat (nibbleField w)).toNat = w.toNat % 16 := by
    rw [nibbleField, UInt8.toNat_ofNat']
    omega
  have hw := w.toNat_lt
  refine decode_cases (P := fun i ↦ i.opcode =
      if w.toNat / 4096 = 5 ∨ w.toNat / 4096 = 9 then w.toNat / 16 * 16 else w.toNat) w
    ?plain ?_ ?_ ?_ ?_ ?_ ?_ ?_ ?compute ?_ ?_ ?_ ?_ ?_ ?keySkip ?transfer
  case plain =>
    intro hd
    rw [opcode_getD fun i hi ↦ opcode_of_plain? hi, if_neg (by omega)]
  case compute =>
    intro hd
    have hop : ∀ i ∈ (operation? (nibbleField w)).map (compute · (xField w) (yField w)),
        i.opcode = w.toNat := by
      intro i hi
      obtain ⟨op, hop, rfl⟩ := Option.map_eq_some_iff.mp hi
      have hdigit : op.digit = w.toNat % 16 := digit_of_operation? hop
      simp only [opcode]
      omega
    rw [opcode_getD hop, if_neg (by omega)]
  case keySkip =>
    intro hd
    rw [opcode_getD fun i hi ↦ (opcode_of_keySkip? hi).trans (by omega), if_neg (by omega)]
  case transfer =>
    intro hd
    rw [opcode_getD fun i hi ↦ (opcode_of_transfer? hi).trans (by omega), if_neg (by omega)]
  all_goals
    intro hd
    simp only [opcode, Condition.opcode]
    split <;> omega

end Opcode

theorem decode_of_register_comparison {a b : UInt16} {d x y m n : Nat} (hd : d = 5 ∨ d = 9)
    (ha : digits a = [d, x, y, m]) (hb : digits b = [d, x, y, n]) : decode a = decode b := by
  simp only [digits, List.cons.injEq] at ha hb
  have hx : xField a = xField b := Fin.ext (ha.2.1.trans hb.2.1.symm)
  have hy : yField a = yField b := Fin.ext (ha.2.2.1.trans hb.2.2.1.symm)
  simp only [decode, ha.1, hb.1, hx, hy]
  rcases hd with rfl | rfl <;> rfl

theorem decode_eq_decode_iff {a b : UInt16} : decode a = decode b ↔
    a = b ∨ ∃ d x y m n, (d = 5 ∨ d = 9) ∧ digits a = [d, x, y, m] ∧ digits b = [d, x, y, n] := by
  constructor
  · intro h
    have hword := congrArg opcode h
    rw [opcode_decode, opcode_decode] at hword
    by_cases ha : a.toNat / 4096 = 5 ∨ a.toNat / 4096 = 9
    · refine .inr ⟨_, _, _, _, b.toNat % 16, ha, rfl, ?_⟩
      rw [if_pos ha] at hword
      simp only [digits, List.cons.injEq, and_true]
      split at hword <;> omega
    · refine .inl (UInt16.toNat_inj.mp ?_)
      rw [if_neg ha] at hword
      split at hword <;> omega
  · rintro (rfl | ⟨d, x, y, m, n, hd, ha, hb⟩)
    · rfl
    · exact decode_of_register_comparison hd ha hb

section Unknown

theorem plain?_unknown_iff : (plain? n).getD (.unknown w) = .unknown v ↔
    v = w ∧ ¬ (n = 0x0E0 ∨ n = 0x0EE) := by
  simp only [plain?]
  split <;> simp_all [eq_comm]

theorem operation?_unknown_iff {y : Register} :
    ((operation? n).map (compute · x y)).getD (.unknown w) = .unknown v ↔
      v = w ∧ ¬ (n ≤ 7 ∨ n = 0xE) := by
  simp only [operation?]
  split <;> simp_all [eq_comm]
  omega

theorem keySkip?_unknown_iff : (keySkip? x n).getD (.unknown w) = .unknown v ↔
    v = w ∧ ¬ (n = 0x9E ∨ n = 0xA1) := by
  simp only [keySkip?]
  split <;> simp_all [eq_comm]

theorem transfer?_unknown_iff : (transfer? x n).getD (.unknown w) = .unknown v ↔
    v = w ∧ ¬ (n = 0x07 ∨ n = 0x0A ∨ n = 0x15 ∨ n = 0x18 ∨ n = 0x1E ∨ n = 0x29 ∨ n = 0x33 ∨
      n = 0x55 ∨ n = 0x65) := by
  simp only [transfer?]
  split <;> simp_all [eq_comm]

theorem digitValue?_of_pattern :
    "0123456789ABCDEF".toList.map Numeral.digitValue? = (List.range 16).map some ∧
      "NXY_".toList.map Numeral.digitValue? = [none, none, none, none] := by
  decide

theorem decode_eq_unknown_iff : decode w = .unknown v ↔ v = w ∧ ∀ p ∈ patterns, ¬ Fits w p := by
  have hdigits := digitValue?_of_pattern
  simp only [String.reduceToList, List.map_cons, List.map_nil, List.range, List.range.loop,
    List.cons.injEq, and_true] at hdigits
  have hbyte : ∀ k < 256,
      w.toNat % 256 = k ↔ w.toNat / 16 % 16 = k / 16 ∧ w.toNat % 16 = k % 16 := by
    intro k hk
    omega
  have hw := w.toNat_lt
  -- Of each pattern there remains what it asks of the digits.
  simp only [patterns, Fits, digits, hdigits, List.mem_cons, List.not_mem_nil, or_false,
    forall_eq_or_imp, forall_eq, String.reduceToList, List.forall₂_cons,
    List.forall₂_nil_right_iff, Option.mem_def, Option.some.injEq, reduceCtorEq, false_implies,
    implies_true, forall_eq', true_and, and_true]
  refine decode_cases (P := fun i ↦ i = .unknown v ↔ v = w ∧ _) w
    ?plain ?_ ?_ ?_ ?_ ?_ ?_ ?_ ?compute ?_ ?_ ?_ ?_ ?_ ?keySkip ?transfer
  case plain =>
    intro hd
    simp only [plain?_unknown_iff, hd, not_or, true_and, not_and, Nat.zero_ne_one,
      not_false_eq_true, reduceCtorEq, false_and, and_self, and_true, and_congr_right_iff]
    omega
  case compute =>
    intro hd
    simp only [nibbleField, operation?_unknown_iff, hd, not_or, Nat.not_le, reduceCtorEq,
      false_and, not_false_eq_true, Nat.reduceEqDiff, Nat.succ_ne_self, true_and, and_self,
      and_true, and_congr_right_iff]
    omega
  case keySkip =>
    intro hd
    simp only [keySkip?_unknown_iff, hbyte, Nat.reduceLT, Nat.reduceDiv, Nat.reduceMod, hd, not_or,
      not_and, reduceCtorEq, false_and, not_false_eq_true, Nat.reduceEqDiff, Nat.succ_ne_self,
      true_and, and_self, and_true]
  case transfer =>
    intro hd
    simp only [transfer?_unknown_iff, hbyte, Nat.reduceLT, Nat.reduceDiv, Nat.reduceMod, hd, not_or,
      not_and, reduceCtorEq, false_and, not_false_eq_true, Nat.reduceEqDiff, Nat.succ_ne_self,
      true_and]
  all_goals
    intro hd
    simp only [reduceCtorEq, hd, false_and, not_false_eq_true, Nat.reduceEqDiff, Nat.succ_ne_self,
      not_true_eq_false, and_self, and_true, and_false]

end Unknown

/-- Two words say the same if they are the same, or if they compare the same registers in the same
way and differ in the last digit, which says nothing there. A word says nothing if it fits no
pattern, and it is then kept as it is. -/
theorem decoding_loses_last_digit_of_comparisons :
    (∀ a b, decode a = decode b ↔ a = b ∨
      ∃ d x y m n, (d = 5 ∨ d = 9) ∧ digits a = [d, x, y, m] ∧ digits b = [d, x, y, n]) ∧
    ∀ w v, decode w = .unknown v ↔ v = w ∧ ∀ p ∈ patterns, ¬ Fits w p :=
  ⟨fun _ _ ↦ decode_eq_decode_iff, fun _ _ ↦ decode_eq_unknown_iff⟩

/-- The last digit of a comparison says nothing. That of an operation does, and no operation has the
digit `8`. -/
example : decode 0x5AB3 = decode 0x5ABF ∧ Fits 0x5ABF "5XY_" ∧ decode 0x8AB8 = .unknown 0x8AB8 := by
  decide

end Instruction

end Chip8

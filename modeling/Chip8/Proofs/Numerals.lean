import Chip8.Registers

namespace Chip8

namespace Numeral

def digitValue? (c : Char) : Option Nat := (List.range 16).find? fun d ↦ hexDigit d == c

def value (cs : List Char) : Nat :=
  cs.foldl (fun n c ↦ 16 * n + (digitValue? c).getD 0) 0

theorem digitValue?_hexDigit {d : Nat} (h : d < 16) : digitValue? (hexDigit d) = some d := by
  have hall : ∀ e : Fin 16, digitValue? (hexDigit e) = some e.val := by decide
  exact hall ⟨d, h⟩

theorem value_concat (cs : List Char) (c : Char) :
    value (cs ++ [c]) = 16 * value cs + (digitValue? c).getD 0 := by
  rw [value, List.foldl_append]
  rfl

theorem value_hexDigit {d : Nat} (h : d < 16) : value [hexDigit d] = d := by
  have hread := value_concat [] (hexDigit d)
  rw [digitValue?_hexDigit h] at hread
  exact hread.trans (Nat.zero_add d)

theorem value_hexDigits (n : Nat) : value (hexDigits n) = n := by
  induction n using hexDigits.induct with
  | case1 n h =>
    rw [hexDigits, if_pos h]
    exact value_hexDigit h
  | case2 n h ih =>
    have hdigit : n % 16 < 16 := Nat.mod_lt n (by decide)
    rw [hexDigits, if_neg h, value_concat, ih, digitValue?_hexDigit hdigit]
    exact Nat.div_add_mod n 16

theorem value_replicate_append (k : Nat) (cs : List Char) :
    value (List.replicate k '0' ++ cs) = value cs := by
  induction k with
  | zero => rfl
  | succ k ih => exact ih

theorem toList_hex (width n : Nat) :
    (hex width n).toList = List.replicate (width - (hexDigits n).length) '0' ++ hexDigits n := by
  rw [hex, String.toList_ofList, List.leftpad]

theorem value_hex (width n : Nat) : value (hex width n).toList = n := by
  rw [toList_hex, value_replicate_append, value_hexDigits]

theorem toList_marked (width n : Nat) :
    (marked width n).toList = '0' :: 'x' :: (hex width n).toList :=
  String.toList_append ..

theorem exists_of_mem_hexDigits {c : Char} {n : Nat} (h : c ∈ hexDigits n) :
    ∃ d < 16, c = hexDigit d := by
  induction n using hexDigits.induct with
  | case1 n hn =>
    rw [hexDigits, if_pos hn] at h
    exact ⟨n, hn, List.mem_singleton.mp h⟩
  | case2 n hn ih =>
    rw [hexDigits, if_neg hn] at h
    rcases List.mem_append.mp h with h | h
    · exact ih h
    · exact ⟨n % 16, Nat.mod_lt n (by decide), List.mem_singleton.mp h⟩

theorem digitValue?_ne_none {c : Char} {width n : Nat} (h : c ∈ (hex width n).toList) :
    digitValue? c ≠ none := by
  have hdigit : ∃ d < 16, c = hexDigit d := by
    rw [toList_hex] at h
    rcases List.mem_append.mp h with h | h
    · exact ⟨0, by decide, List.eq_of_mem_replicate h⟩
    · exact exists_of_mem_hexDigits h
  obtain ⟨d, hd, rfl⟩ := hdigit
  rw [digitValue?_hexDigit hd]
  exact Option.some_ne_none d

end Numeral

theorem Register.toList_name (x : Register) : x.name.toList = ['V', Numeral.hexDigit x] := by
  rw [name, String.toList_append, Numeral.toList_hex, Numeral.hexDigits, if_pos x.isLt]
  rfl

end Chip8

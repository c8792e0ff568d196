import ApiBindings.Numeric.Binary64.Shortest
import ApiBindings.Numeric.Calendar
import Mathlib.Tactic.SplitIfs
import Mathlib.Tactic.Tauto

/-!
The texts of numbers and of points in time. Main statement: they are made of digits and of a few
other characters.
-/

namespace ApiBindings

variable {x : String}

namespace Text

def isNumeralChar (c : Char) : Bool := c.isDigit || "+-.: eainf".toList.contains c

def isNumeral (x : String) : Bool := x.toList.all isNumeralChar

@[simp]
theorem isNumeral_append (x y : String) :
    isNumeral (x ++ y) = (isNumeral x && isNumeral y) := by
  rw [isNumeral, String.toList_append, List.all_append]
  rfl

theorem isNumeral_of_digits (h : ∀ c ∈ x.toList, c.isDigit = true) : isNumeral x = true := by
  rw [isNumeral, List.all_eq_true]
  exact fun c hc => by rw [isNumeralChar, h c hc, Bool.true_or]

@[simp]
theorem isNumeral_ofNat (n : Nat) : isNumeral (ofNat n) = true := by
  refine isNumeral_of_digits fun c hc => ?_
  rw [ofNat, String.toList_ofList] at hc
  exact Nat.isDigit_of_mem_toDigits (by decide) (by decide) hc

@[simp]
theorem isNumeral_ofInt (n : Int) : isNumeral (ofInt n) = true := by
  cases n with
  | ofNat n => exact isNumeral_ofNat n
  | negSucc n =>
    rw [ofInt, isNumeral_append, isNumeral_ofNat]
    decide

end Text

open Text (isNumeral)

@[simp]
theorem isNumeral_padded (width n : Nat) : isNumeral (padded width n) = true := by
  refine Text.isNumeral_of_digits fun c hc => ?_
  rw [padded, String.toList_ofList, List.mem_append] at hc
  rcases hc with hc | hc
  · rw [List.eq_of_mem_replicate hc]
    decide
  · exact Nat.isDigit_of_mem_toDigits (by decide) (by decide) hc

theorem Date.isNumeral_text (d : Date) : isNumeral d.text = true := by
  simp +decide [Date.text]

theorem TimeOfDay.isNumeral_text (t : TimeOfDay) : isNumeral t.text = true := by
  rw [TimeOfDay.text]
  split_ifs <;> simp +decide

theorem DateTime.isNumeral_offsetText (offset : Int) : isNumeral (offsetText offset) = true := by
  rw [offsetText]
  split_ifs <;> simp +decide

theorem DateTime.isNumeral_text (t : DateTime) : isNumeral (t.text " ") = true := by
  rw [DateTime.text]
  cases t.offset with
  | none => split_ifs <;> simp +decide [Date.isNumeral_text]
  | some o => split_ifs <;> simp +decide [Date.isNumeral_text, isNumeral_offsetText]

namespace Binary64

theorem isNumeral_exponentText (e : Int) : isNumeral (exponentText e) = true := by
  rw [exponentText]
  split_ifs <;> simp +decide

theorem isNumeral_layout {digits : List Char}
    (h : ∀ d ∈ digits, Text.isNumeralChar d = true) (point : Int) :
    isNumeral (layout digits point) = true := by
  have hall (cs : List Char) (hcs : ∀ d ∈ cs, d ∈ digits ∨ d ∈ ['0', '.']) :
      isNumeral (String.ofList cs) = true := by
    have hzero : ∀ d ∈ ['0', '.'], Text.isNumeralChar d = true := List.all_eq_true.mp (by decide)
    rw [isNumeral, String.toList_ofList, List.all_eq_true]
    exact fun d hd => (hcs d hd).elim (h d) (hzero d)
  -- with an exponent, behind a leading zero, or with the point among the digits
  unfold layout
  split_ifs
  · rw [Text.isNumeral_append, Text.isNumeral_append, isNumeral_exponentText, Bool.and_true,
      Bool.and_eq_true]
    refine ⟨?_, by decide⟩
    split
    · exact hall _ (by simp; tauto)
    · exact hall _ fun d hd => .inl hd
  · have hstart : isNumeral "0." = true := by decide
    rw [Text.isNumeral_append, hstart, Bool.true_and]
    refine hall _ fun d hd => ?_
    rcases List.mem_append.mp hd with hd | hd
    · exact .inr (by rw [List.eq_of_mem_replicate hd]; decide)
    · exact .inl hd
  · have hwhole : isNumeral (String.ofList (digits.take point.toNat ++
        List.replicate (point.toNat - (digits.take point.toNat).length) '0')) = true := by
      refine hall _ fun d hd => ?_
      rcases List.mem_append.mp hd with hd | hd
      · exact .inl (List.mem_of_mem_take hd)
      · exact .inr (by rw [List.eq_of_mem_replicate hd]; decide)
    have hfraction : isNumeral (if (digits.drop point.toNat).isEmpty then "0"
        else String.ofList (digits.drop point.toNat)) = true := by
      split_ifs
      · decide
      · exact hall _ fun d hd => .inl (List.mem_of_mem_drop hd)
    dsimp only
    rw [Text.isNumeral_append, Text.isNumeral_append, hwhole, hfraction]
    decide

theorem isNumeral_text (x : Binary64) : isNumeral x.text = true := by
  cases x with
  | nan => decide
  | infinite negative => cases negative <;> decide
  | finite negative m e =>
    have hsign : isNumeral (if negative then "-" else "") = true := by
      cases negative <;> decide
    rw [text, Text.isNumeral_append, hsign, Bool.true_and]
    split_ifs
    · decide
    · refine isNumeral_layout (fun d hd => ?_) _
      have hmem : d ∈ (Text.ofNat (shortest m e).1).toList :=
        List.mem_reverse.mp ((List.dropWhile_suffix _).subset (List.mem_reverse.mp hd))
      exact List.all_eq_true.mp (Text.isNumeral_ofNat _) d hmem

end Binary64

end ApiBindings

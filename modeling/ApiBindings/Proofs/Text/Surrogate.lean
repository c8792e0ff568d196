import ApiBindings.Text.Printable
import ApiBindings.Text.Surrogate

/-!
Halves of surrogate pairs in texts. Main statements: a character is known by its code point, and a
text that can be encoded comes in as it went out.
-/

namespace ApiBindings.Text

variable {c : Char} {n : Nat} {s : String}

theorem toNat_valid (c : Char) : c.toNat < 0xd800 ∨ 0xdfff < c.toNat ∧ c.toNat < 0x110000 := c.valid

theorem isHalf_iff : isHalf n = true ↔ 0xd800 ≤ n ∧ n < 0xe000 := by
  rw [isHalf, Bool.and_eq_true, decide_eq_true_iff, decide_eq_true_iff]

theorem carriesHalf_iff : carriesHalf c = true ↔ 0x4d800 ≤ c.toNat ∧ c.toNat < 0x4e000 := by
  rw [carriesHalf, Bool.and_eq_true, decide_eq_true_iff, isHalf_iff, carriage]
  omega

theorem codePoint_of_carriesHalf (h : carriesHalf c = true) : codePoint c = c.toNat - 0x40000 :=
  if_pos h

theorem codePoint_of_not_carriesHalf (h : carriesHalf c = false) : codePoint c = c.toNat := by
  rw [codePoint, if_neg (by simp [h])]

theorem received_of_not_carriesHalf (h : carriesHalf c = false) : received c = c := by
  rw [received, h]
  rfl

theorem ofCodePoint_of_lt (h : n < 0xd800) : ofCodePoint n = Char.ofNat n := by
  have hn : (Char.ofNat n).toNat = n := by
    rw [Char.ofNat, dif_pos (.inl h)]
    rfl
  have hcarrier : carriesHalf (Char.ofNat n) = false := by
    rw [← Bool.not_eq_true, carriesHalf_iff]
    omega
  rw [ofCodePoint, if_neg (by rw [isHalf_iff]; omega), received_of_not_carriesHalf hcarrier]

theorem ofCodePoint_codePoint (c : Char) : ofCodePoint (codePoint c) = c := by
  have hvalid := toNat_valid c
  cases h : carriesHalf c with
  | true =>
    have hcarrier := carriesHalf_iff.mp h
    have hback : c.toNat - 0x40000 + carriage = c.toNat := Nat.sub_add_cancel (by omega)
    rw [codePoint_of_carriesHalf h, ofCodePoint, if_pos (isHalf_iff.mpr (by omega)), hback,
      Char.ofNat_toNat]
  | false =>
    rw [codePoint_of_not_carriesHalf h, ofCodePoint, if_neg (by rw [isHalf_iff]; omega),
      Char.ofNat_toNat, received_of_not_carriesHalf h]

theorem codePoint_mod (c : Char) : codePoint c % 16 = c.toNat % 16 := by
  cases h : carriesHalf c with
  | true =>
    have hcarrier := carriesHalf_iff.mp h
    have hcode := codePoint_of_carriesHalf h
    omega
  | false => rw [codePoint_of_not_carriesHalf h]

theorem codePoint_lt (c : Char) : codePoint c < 0x110000 := by
  have hvalid := toNat_valid c
  cases h : carriesHalf c with
  | true =>
    have hcode := codePoint_of_carriesHalf h
    omega
  | false =>
    rw [codePoint_of_not_carriesHalf h]
    omega

theorem isPrintable_of_carriesHalf (h : carriesHalf c = true) : isPrintable c = false := by
  have hvalid := toNat_valid c
  have hcarrier := carriesHalf_iff.mp h
  have hplane : (0x3134b, 0xe00ff) ∈ hiddenRanges := by decide +kernel
  have hhidden : inRanges c.toNat hiddenRanges = true := by
    refine List.any_eq_true.mpr ⟨_, hplane, ?_⟩
    rw [Bool.and_eq_true, decide_eq_true_iff, decide_eq_true_iff]
    omega
  rw [isPrintable, if_neg (by omega), hhidden]
  rfl

theorem isEncodable_iff : isEncodable s = true ↔ ∀ c ∈ s.toList, carriesHalf c = false := by
  simp [isEncodable]

theorem receivedText_of_isEncodable (h : isEncodable s = true) : receivedText s = s := by
  have hsame : s.toList.map received = s.toList.map id :=
    List.map_congr_left fun c hc => received_of_not_carriesHalf (isEncodable_iff.mp h c hc)
  rw [receivedText, hsame, List.map_id, String.ofList_toList]

end ApiBindings.Text

import ApiBindings.Document.Display
import ApiBindings.Proofs.Document.Throughout
import ApiBindings.Proofs.Numeric.Numeral
import ApiBindings.Proofs.Text.Marker

/-!
Documents whose texts hold no marker. Main statement: the text of every value of such a document
holds none, and none begins with the end of an escape in it.
-/

namespace ApiBindings

open Text (markers stops Occurs Quiet Fence Printable isQuiet isFence isPrintable isNumeral)

variable {m x y : String}

namespace Text

structure Tame (m x : String) : Prop where
  quiet : Quiet m x
  printable : Printable x

def isTame (cs : List Char) : Bool :=
  (Text.Spelled.spelling markers).all (fun w => isQuiet w cs) && cs.all isPrintable

theorem Printable.append (hx : Printable x) (hy : Printable y) : Printable (x ++ y) := by
  intro c hc
  rw [String.toList_append, List.mem_append] at hc
  exact hc.elim (hx c) (hy c)

theorem Printable.joinWith {sep : String} {xs : List String} (hsep : Printable sep)
    (h : ∀ x ∈ xs, Printable x) : Printable (joinWith sep xs) := by
  induction xs with
  | nil => exact fun c hc => nomatch hc
  | cons x xs ih =>
    obtain ⟨hx, hxs⟩ := List.forall_mem_cons.mp h
    cases xs with
    | nil => exact hx
    | cons y ys => exact (hx.append hsep).append (ih hxs)

theorem printable_of_isNumeral (h : isNumeral x = true) : Printable x := by
  have hothers : ∀ c ∈ "+-.: eainf".toList, isPrintable c = true := by decide
  intro c hc
  have hchar := List.all_eq_true.mp h c hc
  rw [isNumeralChar, Bool.or_eq_true, List.contains_iff_mem] at hchar
  rcases hchar with hdigit | hother
  · rw [Char.isDigit_iff_toNat] at hdigit
    simp only [Char.reduceToNat] at hdigit
    rw [isPrintable_ascii (by omega), Bool.and_eq_true, decide_eq_true_eq, decide_eq_true_eq]
    omega
  · exact hothers c hother

namespace Tame

theorem append (hx : Tame m x) (hy : Tame m y) : Tame m (x ++ y) :=
  ⟨hx.quiet.append hy.quiet, hx.printable.append hy.printable⟩

theorem joinWith {sep : String} {xs : List String} (hsep : Tame m sep)
    (h : ∀ x ∈ xs, Tame m x) : Tame m (joinWith sep xs) :=
  ⟨.joinWith hsep.quiet fun x hx => (h x hx).quiet,
    .joinWith hsep.printable fun x hx => (h x hx).printable⟩

variable (hm : m ∈ markers)
include hm

theorem given {cs : List Char} (h : isTame cs = true) : Tame m (String.ofList cs) := by
  rw [isTame, Bool.and_eq_true, List.all_eq_true, List.all_eq_true] at h
  refine ⟨quiet_given hm h.1, fun c hc => h.2 c ?_⟩
  rwa [String.toList_ofList] at hc

theorem numeral (h : isNumeral x = true) : Tame m x := by
  refine ⟨Stopless.quiet hm fun c hc hmem => ?_, printable_of_isNumeral h⟩
  have hnone : ∀ c ∈ stops, isNumeralChar c = false := by decide
  have hchar := List.all_eq_true.mp h c hmem
  rw [hnone c hc] at hchar
  cases hchar

theorem bytesLiteral {bs : List UInt8} (h : ¬ Occurs m (bytesLiteral bs)) :
    Tame m (bytesLiteral bs) := by
  have hb : 'b' ∉ m.toList := by
    clear h
    revert m
    decide
  obtain ⟨cs, hcs⟩ : ∃ cs, (Text.bytesLiteral bs).toList = 'b' :: cs := by
    rw [Text.bytesLiteral, String.toList_ofList, List.cons_append]
    exact ⟨_, rfl⟩
  exact ⟨quiet_of_head hcs hb h, printable_bytesLiteral bs⟩

end Tame

end Text

open Text (Tame)

namespace Scalar

/-- The text of the scalar holds no marker, and the literal of bytes neither. -/
def Clear (m : String) : Scalar → Prop
  | .str s => Text.Clear m s
  | .bytes bs => ¬ Occurs m (Text.bytesLiteral bs)
  | _ => True

def Lacks (m : String) : Scalar → Prop
  | .str s => ¬ Occurs m s
  | .bytes bs => ¬ Occurs m (Text.bytesLiteral bs)
  | _ => True

end Scalar

section Literals

variable (hm : m ∈ markers)
include hm

theorem tame_numbers {before after : String} {parts : List String}
    (hbefore : Tame m before) (hafter : Tame m after) (h : ∀ x ∈ parts, Tame m x) :
    Tame m (before ++ Text.joinWith ", " parts ++ after) :=
  (hbefore.append (.joinWith (.given hm (by decide)) h)).append hafter

theorem tame_ofNat_map (ns : List Nat) : ∀ x ∈ ns.map Text.ofNat, Tame m x := by
  intro x hx
  obtain ⟨n, -, rfl⟩ := List.mem_map.mp hx
  exact .numeral hm (Text.isNumeral_ofNat n)

theorem Date.tame_literal (d : Date) : Tame m d.literal :=
  tame_numbers hm (.given hm (by decide))
    (.given hm (by decide)) (tame_ofNat_map hm _)

theorem TimeOfDay.tame_literal (t : TimeOfDay) : Tame m t.literal :=
  tame_numbers hm (.given hm (by decide))
    (.given hm (by decide)) (tame_ofNat_map hm _)

theorem DateTime.tame_offsetLiteral (offset : Int) : Tame m (offsetLiteral offset) := by
  rw [offsetLiteral]
  split_ifs
  · exact .given hm (by decide)
  · have hpart (name : String) (hname : Tame m name) (n : Int) (p : Prop) [Decidable p] :
        ∀ x ∈ (if p then [] else [name ++ Text.ofInt n]), Tame m x := by
      split_ifs
      · exact List.forall_mem_nil _
      · exact List.forall_mem_singleton.mpr (hname.append (.numeral hm (Text.isNumeral_ofInt n)))
    dsimp only
    refine tame_numbers hm (.given hm (by decide))
      (.given hm (by decide)) fun x hx => ?_
    rcases List.mem_append.mp hx with hx | hx
    · exact hpart "days=" (.given hm (by decide)) _ _ x hx
    · exact hpart "seconds=" (.given hm (by decide)) _ _ x hx

theorem DateTime.tame_literal (t : DateTime) : Tame m t.literal := by
  unfold DateTime.literal
  dsimp only
  refine tame_numbers hm (.given hm (by decide))
    (.given hm (by decide)) fun x hx => ?_
  rcases List.mem_append.mp hx with hx | hx
  · exact tame_ofNat_map hm _ x hx
  · split at hx
    · rw [List.mem_singleton.mp hx]
      exact .append (.given hm (by decide)) (tame_offsetLiteral hm _)
    · cases hx

theorem Scalar.tame_literal {s : Scalar} (h : s.Clear m) : Tame m s.literal := by
  cases s with
  | null => exact .given hm (by decide)
  | bool b =>
    cases b with
    | false => exact .given hm (by decide)
    | true => exact .given hm (by decide)
  | int n => exact .numeral hm (Text.isNumeral_ofInt n)
  | float x => exact .numeral hm x.isNumeral_text
  | str s => exact ⟨Text.quiet_literal hm h, Text.printable_literal s⟩
  | date d => exact d.tame_literal hm
  | dateTime t => exact t.tame_literal hm
  | time t => exact t.tame_literal hm
  | bytes bs => exact .bytesLiteral hm h

theorem Scalar.clear_text {s : Scalar} (h : s.Clear m) : Text.Clear m s.text := by
  have hplain {x : String} (hx : Tame m x) : Text.Clear m x :=
    .of_printable (hx.quiet.not_occurs (Text.marker_ne_empty hm)) hx.printable
  cases s with
  | str s => exact h
  | date d => exact hplain (.numeral hm d.isNumeral_text)
  | dateTime t => exact hplain (.numeral hm t.isNumeral_text)
  | time t => exact hplain (.numeral hm t.isNumeral_text)
  | _ => exact hplain (tame_literal hm h)

end Literals

theorem Scalar.printable_literal (s : Scalar) : Printable s.literal := by
  have hm : "Require<" ∈ markers := by decide
  cases s with
  | str s => exact Text.printable_literal s
  | bytes bs => exact Text.printable_bytesLiteral bs
  | null => exact (Scalar.tame_literal (s := .null) hm trivial).printable
  | bool b => exact (Scalar.tame_literal (s := .bool b) hm trivial).printable
  | int n => exact (Scalar.tame_literal (s := .int n) hm trivial).printable
  | float x => exact (Scalar.tame_literal (s := .float x) hm trivial).printable
  | date d => exact (d.tame_literal hm).printable
  | dateTime t => exact (t.tame_literal hm).printable
  | time t => exact (t.tame_literal hm).printable

namespace Value

def Clear (m : String) (v : Value) : Prop := v.Throughout (Scalar.Clear m) fun _ => True

def Lacks (m : String) (v : Value) : Prop := v.Throughout (Scalar.Lacks m) fun _ => True

theorem literals_eq_map (vs : List Value) : literals vs = vs.map literal := by
  induction vs with
  | nil => rfl
  | cons v vs ih => rw [literals, ih, List.map_cons]

theorem entryLiterals_eq_map (es : Entries) :
    entryLiterals es = es.map fun e => e.1.literal ++ ": " ++ e.2.literal := by
  induction es with
  | nil => rfl
  | cons e es ih => rw [entryLiterals, ih, List.map_cons]

theorem printable_bracketed {before after : String} {parts : List String}
    (hbefore : Printable before) (hafter : Printable after) (h : ∀ x ∈ parts, Printable x) :
    Printable (before ++ Text.joinWith ", " parts ++ after) := by
  have hcomma : Printable ", " := by decide
  exact (hbefore.append (.joinWith hcomma h)).append hafter

theorem printable_literal (v : Value) : Printable v.literal := by
  induction v using inductionOn with
  | scalar s => exact s.printable_literal
  | list items ih =>
    rw [literal, literals_eq_map]
    exact printable_bracketed (by decide) (by decide) (List.forall_mem_map.mpr ih)
  | map label es ih =>
    rw [literal, entryLiterals_eq_map]
    have hcolon : Printable ": " := by decide
    refine printable_bracketed (by decide) (by decide +kernel)
      (List.forall_mem_map.mpr fun e he => ?_)
    exact (e.1.printable_literal.append hcolon).append (ih e he)
  | set ms =>
    cases ms with
    | nil => exact (by decide : Printable "set()")
    | cons a ms =>
      exact printable_bracketed (by decide) (by decide)
        (List.forall_mem_map.mpr fun s _ => s.printable_literal)
  | pair a b iha ihb =>
    have hopen : Printable "(" := by decide
    have hcomma : Printable ", " := by decide
    have hclose : Printable ")" := by decide
    exact (((hopen.append iha).append hcomma).append ihb).append hclose

variable (hm : m ∈ markers) {v : Value}
include hm

theorem not_occurs_bracketed {before after : String} {parts : List String}
    (hbefore : Fence m before) (hafter : Quiet m after) (h : ∀ x ∈ parts, ¬ Occurs m x) :
    ¬ Occurs m (before ++ Text.joinWith ", " parts ++ after) := by
  have hcomma : Fence m ", " := Text.fence_given hm (by decide)
  have hparts := Text.not_occurs_joinWith (Text.marker_ne_empty hm) hcomma h
  exact ((hbefore.append hparts).append hafter).not_occurs (Text.marker_ne_empty hm)

theorem not_occurs_literal (h : v.Clear m) : ¬ Occurs m v.literal := by
  have hne := Text.marker_ne_empty hm
  have hclosing {cs : List Char} (hcs : Text.isTame cs = true) : Quiet m (String.ofList cs) :=
    (Tame.given hm hcs).quiet
  induction v using inductionOn with
  | scalar s => exact (s.tame_literal hm (throughout_scalar.mp h)).quiet.not_occurs hne
  | list items ih =>
    rw [literal, literals_eq_map]
    refine not_occurs_bracketed hm (Text.fence_given hm (by decide))
      (hclosing (by decide)) (List.forall_mem_map.mpr fun v hv => ?_)
    exact ih v hv (throughout_list.mp h v hv)
  | map label es ih =>
    rw [literal, entryLiterals_eq_map]
    refine not_occurs_bracketed hm (Text.fence_given hm (by decide))
      (hclosing (by decide)) (List.forall_mem_map.mpr fun e he => ?_)
    obtain ⟨hkey, hvalue⟩ := (throughout_map.mp h).2 e he
    have hcolon : Fence m ": " := Text.fence_given hm (by decide)
    exact hcolon.not_occurs ((e.1.tame_literal hm hkey).quiet.not_occurs hne) (ih e he hvalue)
  | set ms =>
    cases ms with
    | nil => exact (hclosing (by decide)).not_occurs hne
    | cons a ms =>
      refine not_occurs_bracketed hm (Text.fence_given hm (by decide))
        (hclosing (by decide)) (List.forall_mem_map.mpr fun s hs => ?_)
      exact (s.tame_literal hm (by rw [Clear, Throughout] at h; exact h s hs)).quiet.not_occurs hne
  | pair a b iha ihb =>
    rw [Clear, Throughout] at h
    have hcomma : Fence m ", " := Text.fence_given hm (by decide)
    refine Text.not_occurs_append ?_ (hclosing (by decide))
    exact hcomma.not_occurs (Text.not_occurs_after hm (by decide) rfl (iha h.1)) (ihb h.2)

theorem clear_empty : (Value.str "").Clear m := by
  have hprintable : Printable "" := fun _ hc => nomatch hc
  have hclear : Text.Clear m "" :=
    .of_printable (fun ho => Text.marker_ne_empty hm ho.eq_empty) hprintable
  exact throughout_scalar.mpr hclear

omit hm in
theorem Lacks.clear (hm : m ∈ markers) (hne : m ≠ "encode`") (h : v.Lacks m) : v.Clear m := by
  have hdigits : ∀ m ∈ markers.erase "encode`", ∀ d ∈ Text.hexChars, m.toList.head? ≠ some d := by
    decide
  refine h.mono (fun s hs => ?_) fun _ _ => trivial
  cases s with
  | str s =>
    refine ⟨hs, fun c _ hhead => absurd hhead ?_⟩
    exact hdigits m ((List.mem_erase_of_ne hne).mpr hm) _
      (Text.hexDigit_mem (Nat.mod_lt _ (by decide)))
  | _ => exact hs

theorem clear_text (h : v.Clear m) : Text.Clear m v.text := by
  cases v with
  | scalar s => exact s.clear_text hm (throughout_scalar.mp h)
  | _ => exact .of_printable (not_occurs_literal hm h) (printable_literal _)

theorem lasting_clear : Lasting (Scalar.Clear m) fun _ => True where
  null := trivial
  char s _ c _ := by
    have hlong : ∀ m ∈ markers, m.toList.tail ≠ [] := by decide
    have hshort {d : Char} {ds : List Char} (ho : d :: ds <:+: [c]) : ds = [] := by
      have hlength := ho.length_le
      simpa using hlength
    constructor
    · intro ho
      rw [Occurs, String.toList_ofList] at ho
      cases hchars : m.toList with
      | nil => exact Text.marker_ne_empty hm (String.toList_eq_nil_iff.mp hchars)
      | cons d ds =>
        refine hlong m hm ?_
        rw [hchars] at ho ⊢
        exact hshort ho
    · intro d _ _ ho
      rw [String.toList_ofList] at ho
      exact hlong m hm (hshort ho)
  byte _ _ _ _ := trivial
  empty := trivial
  put _ _ _ _ _ := trivial
  alike _ _ _ _ := trivial

end Value

end ApiBindings

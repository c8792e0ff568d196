import ApiBindings.Proofs.Text.Occurrence
import ApiBindings.Proofs.TypeText.Token
import ApiBindings.Text.Quoted
import Mathlib.Data.List.Forall2

/-!
Texts as they are read with comments and quotes. Main statement: a comment is read as nothing unless
its end stands in it, and texts that are read alike can be exchanged wherever code is read.
-/

namespace ApiBindings.Text

inductive Reading where
  | code
  /-- Behind a slash that may begin a comment. -/
  | slash
  /-- In a comment that ends with the line. -/
  | line
  | comment
  /-- In a comment, behind a star that may end it. -/
  | star
  | quoted (q : Char)
  /-- Behind a backslash between quotes. -/
  | escaped (q : Char)
deriving DecidableEq

def quotes : List Char := "\"'`".toList

def lineEnds : List Char := "\n\r\u2028\u2029".toList

namespace Reading

def ofCode (c : Char) : Reading :=
  if c = '/' then .slash else if c ∈ quotes then .quoted c else .code

def next : Reading → Char → Reading
  | .code, c => ofCode c
  | .slash, c => if c = '/' then .line else if c = '*' then .comment else ofCode c
  | .line, c => if c ∈ lineEnds then .code else .line
  | .comment, c => if c = '*' then .star else .comment
  | .star, c => if c = '/' then .code else if c = '*' then .star else .comment
  | .quoted q, c => if c = q then .code else if c = '\\' then .escaped q else .quoted q
  | .escaped q, _ => .quoted q

/-- What a character adds to the code; a slash is not counted before the next character is read. -/
def plain (c : Char) : List Char := if c = '/' ∨ c = ' ' ∨ c = '\n' then [] else [c]

def shown : Reading → Char → List Char
  | .code, c => plain c
  | .slash, c => if c = '/' ∨ c = '*' then [] else '/' :: plain c
  | .line, _ => []
  | .comment, _ => []
  | .star, _ => []
  | .quoted _, c => [c]
  | .escaped _, c => [c]

end Reading

/-- The characters outside of comments, without the blanks between them, and where the reader is
then. -/
def read (r : Reading) : List Char → List Char × Reading
  | [] => ([], r)
  | c :: cs => (r.shown c ++ (read (r.next c) cs).1, (read (r.next c) cs).2)

theorem read_append (r : Reading) (a b : List Char) :
    read r (a ++ b) = ((read r a).1 ++ (read (read r a).2 b).1, (read (read r a).2 b).2) := by
  induction a generalizing r with
  | nil => rfl
  | cons c cs ih => simp only [List.cons_append, read, ih, List.append_assoc]

def Settled (x : String) : Prop := (read .code x.toList).2 = .code

instance (x : String) : Decidable (Settled x) := inferInstanceAs (Decidable (_ = _))

structure SameCode (x y : String) : Prop where
  settled : Settled x
  read_eq : read .code x.toList = read .code y.toList

namespace SameCode

variable {x y z w sep : String}

theorem refl (h : Settled x) : SameCode x x := ⟨h, rfl⟩

theorem append (h : SameCode x y) (h' : SameCode z w) : SameCode (x ++ z) (y ++ w) := by
  have hy : (read .code y.toList).2 = .code := h.read_eq ▸ h.settled
  have hread : read .code (x ++ z).toList = read .code (y ++ w).toList := by
    rw [String.toList_append, String.toList_append, read_append, read_append, h.read_eq, hy,
      h'.read_eq]
  refine ⟨?_, hread⟩
  rw [Settled, String.toList_append, read_append, h.settled]
  exact h'.settled

theorem read_append_eq (h : SameCode x y) (after : String) :
    read .code (x ++ after).toList = read .code (y ++ after).toList := by
  rw [String.toList_append, String.toList_append, read_append, read_append, h.read_eq]

theorem joinWith {xs ys : List String} (hsep : Settled sep) (h : List.Forall₂ SameCode xs ys) :
    SameCode (joinWith sep xs) (joinWith sep ys) := by
  induction h with
  | nil => exact .refl rfl
  | cons hxy hrest ih =>
    cases hrest with
    | nil => exact hxy
    | cons _ _ => exact (hxy.append (.refl hsep)).append ih

theorem map {α : Type} {f g : α → String} {items : List α}
    (h : ∀ i ∈ items, SameCode (f i) (g i)) :
    List.Forall₂ SameCode (items.map f) (items.map g) := by
  rw [List.forall₂_map_left_iff, List.forall₂_map_right_iff]
  exact List.forall₂_same.mpr h

end SameCode

/-- Wherever code is read, the two texts are read as the same. -/
def Exchangeable (x y : String) : Prop := ∀ before after : String, Settled before →
  read .code (before ++ x ++ after).toList = read .code (before ++ y ++ after).toList

theorem SameCode.exchangeable {x y : String} (h : SameCode x y) (rest : String) :
    Exchangeable (x ++ rest) (y ++ rest) := by
  intro before after hbefore
  have hread := ((refl hbefore).append h).read_append_eq (rest ++ after)
  simpa only [String.append_assoc] using hread

theorem Settled.ite {x y : String} {p : Prop} [Decidable p] (hx : Settled x) (hy : Settled y) :
    Settled (if p then x else y) := by
  split_ifs
  · exact hx
  · exact hy

theorem Settled.joinWith {sep : String} {xs : List String} (hsep : Settled sep)
    (h : ∀ x ∈ xs, Settled x) : Settled (joinWith sep xs) :=
  (SameCode.joinWith hsep (List.forall₂_same.mpr fun x hx => .refl (h x hx))).settled

theorem read_comment {body : List Char} (h : ¬ ['*', '/'] <:+: body) :
    ∃ r, (r = .comment ∨ r = .star) ∧ read .comment body = ([], r) := by
  -- The reader stays in the comment: behind a star no slash follows.
  suffices hall : ∀ r, r = .comment ∨ r = .star ∧ body.head? ≠ some '/' →
      ∃ r', (r' = .comment ∨ r' = .star) ∧ read r body = ([], r') from hall .comment (.inl rfl)
  induction body with
  | nil => exact fun r hr => ⟨r, hr.imp_right And.left, rfl⟩
  | cons c cs ih =>
    rw [List.infix_cons_iff, not_or] at h
    intro r hr
    have hnext : r.shown c = [] ∧
        (r.next c = .comment ∨ r.next c = .star ∧ cs.head? ≠ some '/') := by
      have hstar : c = '*' → cs.head? ≠ some '/' := by
        rintro rfl hslash
        obtain ⟨tail, rfl⟩ := List.head?_eq_some_iff.mp hslash
        exact h.1 (List.prefix_append ['*', '/'] tail)
      rcases hr with rfl | ⟨rfl, hslash⟩
      · by_cases hc : c = '*'
        · exact ⟨rfl, .inr ⟨if_pos hc, hstar hc⟩⟩
        · exact ⟨rfl, .inl (if_neg hc)⟩
      · have hne : c ≠ '/' := fun hc => hslash (congrArg some hc)
        by_cases hc : c = '*'
        · exact ⟨rfl, .inr ⟨(if_neg hne).trans (if_pos hc), hstar hc⟩⟩
        · exact ⟨rfl, .inl ((if_neg hne).trans (if_neg hc))⟩
    obtain ⟨r', hr', hread⟩ := ih h.2 (r.next c) hnext.2
    exact ⟨r', hr', by rw [read, hread, hnext.1, List.nil_append]⟩

/-- A comment without its end in it is read as nothing. -/
theorem sameCode_comment {body : String} (h : ¬ Occurs "*/" body) :
    SameCode ("/*" ++ body ++ "*/") "" := by
  obtain ⟨r, hr, hbody⟩ := read_comment h
  have hopen : read .code "/*".toList = ([], .comment) := rfl
  have hclose : read r "*/".toList = ([], .code) := by
    rcases hr with rfl | rfl <;> rfl
  have hread : read .code ("/*" ++ body ++ "*/").toList = ([], .code) := by
    rw [String.toList_append, String.toList_append, read_append, read_append, hopen, hbody, hclose]
    rfl
  exact ⟨congrArg Prod.snd hread, hread⟩

theorem sameCode_blank {x : String} (h : ∀ c ∈ x.toList, c = ' ' ∨ c = '\n') : SameCode x "" := by
  suffices hread : read .code x.toList = ([], .code) from ⟨congrArg Prod.snd hread, hread⟩
  revert h
  induction x.toList with
  | nil => exact fun _ => rfl
  | cons c cs ih =>
    intro h
    obtain ⟨hc, hcs⟩ := List.forall_mem_cons.mp h
    have hblank : Reading.code.shown c = [] ∧ Reading.code.next c = .code := by
      rcases hc with rfl | rfl <;> exact ⟨rfl, rfl⟩
    rw [read, hblank.1, hblank.2, ih hcs]
    rfl

theorem settled_of_forall {x : String} (h : ∀ c ∈ x.toList, c ≠ '/' ∧ c ∉ quotes) : Settled x := by
  rw [Settled]
  revert h
  induction x.toList with
  | nil => exact fun _ => rfl
  | cons c cs ih =>
    intro h
    obtain ⟨hc, hcs⟩ := List.forall_mem_cons.mp h
    have hnext : Reading.code.next c = .code := (if_neg hc.1).trans (if_neg hc.2)
    rw [read, hnext]
    exact ih hcs

theorem read_quotedChar (c : Char) : (read (.quoted '"') (quotedChar c)).2 = .quoted '"' := by
  rcases TypeText.quotedChar_cases c with ⟨e, hq, -⟩ | ⟨-, -, -, hc, -⟩ | ⟨hq, -, hs, hd⟩
  · rw [hq]
    rfl
  · have hcontrols : ∀ n < 0x20, (read (.quoted '"') (quotedChar (Char.ofNat n))).2 =
        .quoted '"' := by
      decide
    rw [← Char.ofNat_toNat c]
    exact hcontrols _ hc
  · rw [hq]
    exact (if_neg hd).trans (if_neg hs)

theorem settled_quote (s : String) : Settled (quote s) := by
  have hbody : (read (.quoted '"') (s.toList.flatMap quotedChar)).2 = .quoted '"' := by
    induction s.toList with
    | nil => rfl
    | cons c cs ih => rw [List.flatMap_cons, read_append, read_quotedChar, ih]
  rw [Settled, quote_toList, quotedChars, List.cons_append, read]
  change (read (.quoted '"') (s.toList.flatMap quotedChar ++ ['"'])).2 = .code
  rw [read_append, hbody]
  rfl

end ApiBindings.Text

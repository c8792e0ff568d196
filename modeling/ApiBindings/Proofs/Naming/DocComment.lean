import ApiBindings.Proofs.Naming.Unmarked
import ApiBindings.Proofs.Text.Comment
import ApiBindings.Proofs.Text.Pieces

/-!
Descriptions in their comments. Main statement: the description can be read back from its comment,
and the comment ends at its end only, and is read as nothing, if the description holds no such end.
-/

namespace ApiBindings.Naming

open Text (Occurs Quiet Fence SameCode Settled)

variable {description : String} {tab : Nat}

def indent (tab : Nat) : String := String.ofList (List.replicate tab ' ')

def commentLines (description : String) (tab : Nat) : List String :=
  (Text.splitAt '\n' description).map fun line => indent tab ++ " * " ++ line

def commentBody (description : String) (tab : Nat) : String :=
  "*\n" ++ Text.joinWith "\n" (commentLines description tab) ++ "\n" ++ indent tab ++ " "

theorem docComment_empty (tab : Nat) : docComment "" tab = "" := if_pos rfl

theorem docComment_eq (h : description ≠ "") (tab : Nat) :
    docComment description tab =
      "/*" ++ commentBody description tab ++ "*/" ++ ("\n" ++ indent tab) := by
  have hopen : "/**\n" = "/*" ++ "*\n" := rfl
  have hclose : " */\n" = " " ++ ("*/" ++ "\n") := rfl
  rw [docComment, if_neg h, hopen, hclose]
  simp only [commentBody, commentLines, indent, String.append_assoc]

theorem front_eq (description : String) (tab : Nat) :
    "/*" ++ commentBody description tab = "/**" ++ "\n" ++
      Text.joinWith "\n" (commentLines description tab) ++ "\n" ++ indent tab ++ " " := by
  have hopen : "/**" ++ "\n" = "/*" ++ "*\n" := rfl
  rw [hopen, commentBody]
  simp only [String.append_assoc]

theorem blank_of_mem_indent : ∀ c ∈ (indent tab).toList, c = ' ' := by
  intro c hc
  rw [indent, String.toList_ofList] at hc
  exact List.eq_of_mem_replicate hc

theorem quiet_indent (tab : Nat) : Quiet "*/" (indent tab) := by
  refine Text.quiet_of_not_mem rfl fun hmem => ?_
  exact absurd (blank_of_mem_indent _ hmem) (by decide)

theorem occurs_line_iff {line : String} :
    Occurs "*/" (indent tab ++ " * " ++ line) ↔ Occurs "*/" line := by
  have hstar : Fence "*/" " * " := Text.fence_of_isFence (by decide)
  refine ⟨fun h => ?_, fun h => h.append_left _⟩
  by_contra hline
  exact ((hstar.of_quiet (quiet_indent tab)).append hline).not_occurs (by decide) h

/-- No end of a comment runs over a line break. -/
theorem occurs_joinWith_iff {lines : List String} :
    Occurs "*/" (Text.joinWith "\n" lines) ↔ ∃ line ∈ lines, Occurs "*/" line := by
  have hbreak : Fence "*/" "\n" := Text.fence_of_isFence (by decide)
  constructor
  · intro h
    by_contra hnone
    refine Text.not_occurs_joinWith (by decide) hbreak (fun line hline ho => ?_) h
    exact hnone ⟨line, hline, ho⟩
  · rintro ⟨line, hline, h⟩
    exact h.trans (.joinWith hline "\n")

theorem occurs_commentLines_iff (description : String) (tab : Nat) :
    Occurs "*/" (Text.joinWith "\n" (commentLines description tab)) ↔ Occurs "*/" description := by
  have hsplit : Text.joinWith "\n" (Text.splitAt '\n' description) = description :=
    Text.joinWith_splitAt rfl description
  have hlines : (∃ line ∈ commentLines description tab, Occurs "*/" line) ↔
      ∃ line ∈ Text.splitAt '\n' description, Occurs "*/" line := by
    simp only [commentLines, List.mem_map, exists_exists_and_eq_and, occurs_line_iff]
  rw [occurs_joinWith_iff, hlines, ← occurs_joinWith_iff, hsplit]

theorem occurs_front_iff :
    Occurs "*/" ("/*" ++ commentBody description tab) ↔ Occurs "*/" description := by
  have hbreak : Fence "*/" "\n" := Text.fence_of_isFence (by decide)
  have hspace : Quiet "*/" " " := Text.quiet_of_isQuiet (by decide)
  have hopen : ¬ Occurs "*/" "/**" := by decide
  rw [front_eq, ← occurs_commentLines_iff description tab]
  refine ⟨fun h => ?_, fun h => (((h.append_left _).append_right _).append_right _).append_right _⟩
  by_contra hlines
  have hbegin := hbreak.not_occurs hopen hlines
  exact hbegin (hbreak.quiet _ (quiet_indent tab _ (hspace _ h)))

/-- The text has one end of a comment, and this stands behind it. -/
structure ClosesOnce (text rest : String) : Prop where
  closes : ∃ front, text = front ++ "*/" ++ rest
  once : ∀ front other, text = front ++ "*/" ++ other → other = rest

theorem rest_unique {front rest before after : List Char} (hfront : ¬ ['*', '/'] <:+: front)
    (hrest : '/' ∉ rest)
    (h : (front ++ ['*']) ++ '/' :: rest = (before ++ ['*']) ++ '/' :: after) : after = rest := by
  -- Another slash would stand in `rest`, or in `front` behind a star.
  rcases List.append_eq_append_iff.mp h with ⟨more, -, hmore⟩ | ⟨more, hmore, hslash⟩
  · cases more with
    | nil => exact (List.cons.inj hmore).2.symm
    | cons c more =>
      rw [(List.cons.inj hmore).2] at hrest
      exact absurd (List.mem_append_right more List.mem_cons_self) hrest
  · cases more with
    | nil => exact (List.cons.inj hslash).2
    | cons c more =>
      have hc : '/' = c := (List.cons.inj hslash).1
      have hinfix : ['*', '/'] <:+: front ++ ['*'] :=
        ⟨before, more, by rw [hmore, ← hc]; simp⟩
      rcases List.infix_concat_iff.mp hinfix with hsuffix | hinfix
      · obtain ⟨t, ht⟩ := hsuffix
        have hlast := congrArg List.getLast? ht
        simp at hlast
      · exact absurd hinfix hfront

theorem closesOnce_iff {front rest : String} (h : '/' ∉ rest.toList) :
    ClosesOnce (front ++ "*/" ++ rest) rest ↔ ¬ Occurs "*/" front := by
  constructor
  · rintro hcloses ⟨before, after, hfront⟩
    have heq : front ++ "*/" ++ rest =
        String.ofList before ++ "*/" ++ (String.ofList after ++ "*/" ++ rest) := by
      rw [← String.toList_inj]
      simp [← hfront]
    have hother := congrArg String.length (hcloses.once _ _ heq)
    simp at hother
  · intro hfront
    refine ⟨⟨front, rfl⟩, fun before other heq => ?_⟩
    have hchars := congrArg String.toList heq
    simp only [String.toList_append] at hchars
    exact String.toList_inj.mp (rest_unique hfront h (by simpa using hchars))

/-- The description of a comment: its lines without the frame and without what stands in front of
each. -/
def described (comment : String) (tab : Nat) : String :=
  Text.joinWith "\n" ((Text.splitAt '\n' comment).tail.dropLast.dropLast.map fun line =>
    String.ofList (line.toList.drop (tab + 3)))

theorem no_break_of_mem_commentLines {line : String} (h : line ∈ commentLines description tab) :
    '\n' ∉ line.toList := by
  obtain ⟨own, hown, rfl⟩ := List.mem_map.mp h
  obtain ⟨piece, hpiece, rfl⟩ := List.mem_map.mp hown
  have hbreak : '\n' ∉ " * ".toList := by decide
  intro hmem
  simp only [String.toList_append, String.toList_ofList, List.mem_append] at hmem
  rcases hmem with (hmem | hmem) | hmem
  · exact absurd (blank_of_mem_indent _ hmem) (by decide)
  · exact hbreak hmem
  · have hsep := Text.not_isSeparator_of_mem_pieces hpiece _ hmem
    simp at hsep

theorem drop_commentLine (line : String) :
    String.ofList ((indent tab ++ " * " ++ line).toList.drop (tab + 3)) = line := by
  have hlength : (indent tab ++ " * ").toList.length = tab + 3 := by simp [indent]
  rw [String.toList_append, ← hlength, List.drop_left, String.ofList_toList]

theorem docComment_lines (h : description ≠ "") (tab : Nat) :
    docComment description tab =
      "/**" ++ "\n" ++ Text.joinWith "\n" (commentLines description tab) ++ "\n" ++
        (indent tab ++ " */") ++ "\n" ++ indent tab := by
  have hclose : " */" = " " ++ "*/" := rfl
  rw [docComment_eq h, front_eq, hclose]
  simp only [String.append_assoc]

theorem splitAt_docComment (h : description ≠ "") (tab : Nat) :
    Text.splitAt '\n' (docComment description tab) =
      "/**" :: commentLines description tab ++ [indent tab ++ " */", indent tab] := by
  have hbreak : "\n".toList = ['\n'] := rfl
  have hindent : '\n' ∉ (indent tab).toList := fun hmem =>
    absurd (blank_of_mem_indent _ hmem) (by decide)
  have hclose : '\n' ∉ (indent tab ++ " */").toList := by
    rw [String.toList_append, List.mem_append]
    exact not_or.mpr ⟨hindent, by decide⟩
  have hne : commentLines description tab ≠ [] := by
    simpa [commentLines, Text.splitAt] using Text.pieces_ne_nil _ _
  rw [docComment_lines h, Text.splitAt_append hbreak, Text.splitAt_append hbreak,
    Text.splitAt_append hbreak,
    Text.splitAt_of_not_mem hindent, Text.splitAt_of_not_mem hclose,
    Text.splitAt_joinWith hbreak hne fun _ => no_break_of_mem_commentLines,
    Text.splitAt_of_not_mem (by decide)]
  simp

theorem described_docComment (h : description ≠ "") (tab : Nat) :
    described (docComment description tab) tab = description := by
  have hlines : (commentLines description tab).map
      (fun line => String.ofList (line.toList.drop (tab + 3))) = Text.splitAt '\n' description := by
    rw [commentLines, List.map_map]
    exact List.map_id'' (fun line => drop_commentLine line) _
  have hframe : ("/**" :: commentLines description tab ++
      [indent tab ++ " */", indent tab]).tail.dropLast.dropLast = commentLines description tab := by
    rw [List.cons_append, List.tail_cons, List.append_cons, List.dropLast_concat,
      List.dropLast_concat]
  rw [described, splitAt_docComment h, hframe, hlines, Text.joinWith_splitAt rfl]

theorem sameCode_docComment (h : ¬ Occurs "*/" description) (tab : Nat) :
    SameCode (docComment description tab) "" := by
  by_cases hempty : description = ""
  · rw [hempty, docComment_empty]
    exact .refl rfl
  · have hbody : ¬ Occurs "*/" (commentBody description tab) := fun ho =>
      h (occurs_front_iff.mp (ho.append_left "/*"))
    have hrest : SameCode ("\n" ++ indent tab) "" := by
      refine Text.sameCode_blank fun c hc => ?_
      rw [String.toList_append, List.mem_append] at hc
      rcases hc with hc | hc
      · exact .inr (List.mem_singleton.mp hc)
      · exact .inl (blank_of_mem_indent c hc)
    rw [docComment_eq hempty]
    exact (Text.sameCode_comment hbody).append hrest

end ApiBindings.Naming

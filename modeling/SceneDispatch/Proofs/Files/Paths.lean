import SceneDispatch.Files.Path
import Mathlib.Data.List.Basic
import Mathlib.Data.List.TakeWhile
/-!
Paths of what a directory holds. A name joined to the path of a directory is the last part of the
result, whatever the path is like. Main statements: the scenes are the names with a stem before
their extension, and the path of a script differs from that of its scene in the last name only.
-/
namespace SceneDispatch.Path

/-- A name that something in a directory can have. -/
def IsName (name : String) : Prop := name ≠ "" ∧ name ≠ "." ∧ name ≠ ".." ∧ '/' ∉ name.toList

instance (name : String) : Decidable (IsName name) := inferInstanceAs (Decidable (_ ∧ _))

section Parts

variable {path name : List Char}

theorem parts_ne_nil (path : List Char) : parts path ≠ [] := List.splitOnP_ne_nil _ _

theorem parts_name (h : '/' ∉ name) : parts name = [name] := by
  refine List.splitOnP_eq_singleton fun c hc => ?_
  have hne : c ≠ '/' := by
    rintro rfl
    exact h hc
  simp [hne]

theorem parts_below (path : List Char) (h : '/' ∉ name) :
    parts (path ++ '/' :: name) = parts path ++ [name] := by
  have hsplit : parts (path ++ '/' :: name) = parts path ++ parts name :=
    List.splitOnP_append_cons _ _ (by simp)
  rw [hsplit, parts_name h]

theorem ofParts_below (path : List Char) (h : '/' ∉ name) :
    ofParts (parts path ++ [name]) = path ++ '/' :: name := by
  rw [← parts_below path h]
  exact List.intercalate_splitOn '/'

theorem trimmed_eq {front : List (List Char)} (h : parts path = front ++ [name])
    (hidle : isIdle name = false) : trimmed path = front ++ [name] := by
  rw [trimmed, h, List.reverse_append, List.reverse_singleton, List.singleton_append,
    List.dropWhile_cons_of_neg (by simp [hidle]), List.reverse_cons, List.reverse_reverse]

theorem fileName?_eq {front : List (List Char)} (h : parts path = front ++ [name])
    (hidle : isIdle name = false) :
    fileName? path = if name = ['.', '.'] then none else some name := by
  rw [fileName?, trimmed_eq h hidle, List.getLast?_concat]

end Parts

section Extensions

variable {stem old extension : List Char}

theorem extensionOf?_append (hstem : stem ≠ []) (h : '.' ∉ extension) :
    extensionOf? (stem ++ '.' :: extension) = some extension := by
  have htail : ((stem ++ '.' :: extension).reverse.takeWhile (· ≠ '.')).reverse = extension := by
    rw [List.reverse_append, List.reverse_cons, List.append_assoc, List.takeWhile_append_of_pos]
    · simp
    · intro c hc
      have hne : c ≠ '.' := by
        rintro rfl
        exact h (List.mem_reverse.mp hc)
      simp [hne]
  have hlength : 0 < stem.length := List.length_pos_iff.mpr hstem
  rw [extensionOf?, htail]
  refine if_pos ?_
  simp only [List.length_append, List.length_cons]
  omega

theorem eq_append_of_extensionOf? {name : List Char} (h : extensionOf? name = some extension) :
    ∃ stem, stem ≠ [] ∧ name = stem ++ '.' :: extension := by
  simp only [extensionOf?, Option.ite_none_right_eq_some, Option.some.injEq] at h
  obtain ⟨hlength, rfl⟩ := h
  -- what is left of the name read backwards is a dot and at least one character more
  have hsplit := name.reverse.takeWhile_append_dropWhile (p := (· ≠ '.'))
  cases hrest : name.reverse.dropWhile (· ≠ '.') with
  | nil =>
    rw [hrest, List.append_nil] at hsplit
    rw [hsplit, List.reverse_reverse] at hlength
    omega
  | cons c before =>
    have hdot : c = '.' := by
      have hhead := List.head?_dropWhile_not (· ≠ '.') name.reverse
      rw [hrest] at hhead
      simpa using hhead
    subst hdot
    rw [hrest] at hsplit
    refine ⟨before.reverse, ?_, ?_⟩
    · intro hnil
      have hlen := congrArg List.length hsplit
      simp only [List.reverse_eq_nil_iff.mp hnil, List.length_append, List.length_reverse,
        List.length_singleton] at hlen hlength
      omega
    · have hname := congrArg List.reverse hsplit
      rw [List.reverse_append, List.reverse_reverse, List.reverse_cons, List.append_assoc] at hname
      exact hname.symm

theorem stemOf_append (hstem : stem ≠ []) (h : '.' ∉ extension) :
    stemOf (stem ++ '.' :: extension) = stem := by
  rw [stemOf, extensionOf?_append hstem h]
  have hcut : (stem ++ '.' :: extension).length - extension.length - 1 = stem.length := by
    simp only [List.length_append, List.length_cons]
    omega
  simp only [hcut, List.take_left]

end Extensions

/-- Cutting the extension off leaves the dot in front of it, and what then is the last name has no
other part behind its last dot. -/
theorem withExtension_below (path : List Char) (hstem : stem ≠ []) (hslash : '/' ∉ stem)
    (hold : old ≠ [] ∧ '.' ∉ old ∧ '/' ∉ old) (hnew : '/' ∉ extension) :
    withExtension extension (path ++ '/' :: (stem ++ '.' :: old)) =
      path ++ '/' :: (if stem = ['.'] then ['.', '.'] else stem ++ '.' :: extension) := by
  have hlong (rest : List Char) : isIdle (stem ++ '.' :: rest) = false := by
    cases stem with
    | nil => exact absurd rfl hstem
    | cons c stem => cases stem <;> simp [isIdle]
  have hparts (rest : List Char) (h : '/' ∉ rest) :
      parts (path ++ '/' :: (stem ++ '.' :: rest)) = parts path ++ [stem ++ '.' :: rest] :=
    parts_below path (by simp [hslash, h])
  have hextension : extension? (path ++ '/' :: (stem ++ '.' :: old)) = some old := by
    have hdots : stem ++ '.' :: old ≠ ['.', '.'] := by
      intro h
      have hlength := congrArg List.length h
      have hone := List.length_pos_iff.mpr hstem
      have hmore := List.length_pos_iff.mpr hold.1
      simp only [List.length_append, List.length_cons, List.length_nil] at hlength
      omega
    rw [extension?, fileName?_eq (hparts old hold.2.2) (hlong old), if_neg hdots]
    exact extensionOf?_append hstem hold.2.1
  have hcut : (path ++ '/' :: (stem ++ '.' :: old)).take
      ((path ++ '/' :: (stem ++ '.' :: old)).length - old.length) =
        path ++ '/' :: (stem ++ ['.']) := by
    rw [show path ++ '/' :: (stem ++ '.' :: old) = (path ++ '/' :: (stem ++ ['.'])) ++ old by simp,
      List.length_append, Nat.add_sub_cancel, List.take_left]
  rw [withExtension, hextension]
  simp only [hcut]
  rw [setExtension, fileName?_eq (hparts [] (by simp)) (hlong [])]
  by_cases hdot : stem = ['.']
  · simp [hdot]
  · have hdots : stem ++ ['.'] ≠ ['.', '.'] := fun h => hdot (List.append_cancel_right h)
    rw [if_neg hdots, if_neg hdot, trimmed_eq (hparts [] (by simp)) (hlong [])]
    simp only [List.dropLast_concat, stemOf_append hstem List.not_mem_nil]
    exact ofParts_below path (by simp [hslash, hnew])

section Join

variable {directory name stem : String}

/-- The path of a directory without a slash at its end. -/
def before (directory : String) : List Char :=
  if directory.toList.getLast? = some '/' then directory.toList.dropLast else directory.toList

theorem toList_join (directory : String) (h : '/' ∉ name.toList) :
    (join directory name).toList = before directory ++ '/' :: name.toList := by
  have habsolute : ['/'].isPrefixOf name.toList = false := by
    cases hname : name.toList with
    | nil => rfl
    | cons c rest =>
      have hne : '/' ≠ c := by
        rintro rfl
        simp [hname] at h
      simp [List.isPrefixOf, hne]
  rw [join, if_neg (by simp [habsolute]), before]
  split
  · next hslash =>
    rw [String.toList_append]
    conv_lhs => rw [← List.dropLast_append_getLast? _ hslash]
    simp
  · simp

theorem join_eq (directory : String) (h : '/' ∉ name.toList) :
    join directory name = .ofList (before directory ++ ['/']) ++ name :=
  String.toList_inj.mp (by simp [toList_join directory h])

theorem join_inj {name' : String} (h : '/' ∉ name.toList) (h' : '/' ∉ name'.toList) :
    join directory name = join directory name' ↔ name = name' := by
  refine ⟨fun hsame => ?_, fun hsame => hsame ▸ rfl⟩
  have hlists := congrArg String.toList hsame
  rw [toList_join directory h, toList_join directory h', List.append_cancel_left_eq,
    List.cons.injEq] at hlists
  exact String.toList_inj.mp hlists.2

/-- The last name of the path to which a script is written. A stem that is a dot leaves the two
dots of the directory above. -/
def scriptName (stem : String) : String := if stem = "." then ".." else stem ++ ".js"

theorem slash_not_mem_scriptName (h : '/' ∉ stem.toList) : '/' ∉ (scriptName stem).toList := by
  unfold scriptName
  split <;> simp [h]

theorem hasExtension_iff (h : IsName name) :
    hasExtension "xml" name ↔ ∃ stem, stem ≠ "" ∧ name = stem ++ ".xml" := by
  obtain ⟨hne, hdot, hdots, hslash⟩ := h
  have hidle : isIdle name.toList = false := by
    have hdot : name.toList ≠ ['.'] := fun h => hdot (String.toList_inj.mp h)
    simp [isIdle, hdot, hne]
  have hname : fileName? name.toList = some name.toList := by
    rw [@fileName?_eq _ _ [] (parts_name hslash) hidle, if_neg]
    exact fun h => hdots (String.toList_inj.mp h)
  rw [hasExtension, extension?, hname, decide_eq_true_iff]
  constructor
  · intro h
    obtain ⟨stem, hstem, hname⟩ := eq_append_of_extensionOf? h
    refine ⟨.ofList stem, fun h => hstem ?_, String.toList_inj.mp ?_⟩
    · simpa using congrArg String.toList h
    · simp [hname]
  · rintro ⟨stem, hstem, rfl⟩
    rw [String.toList_append]
    exact extensionOf?_append (fun h => hstem (String.toList_inj.mp h)) (by decide)

theorem scriptFor_join (directory : String) (hstem : stem ≠ "") (h : '/' ∉ stem.toList) :
    scriptFor (join directory (stem ++ ".xml")) = join directory (scriptName stem) := by
  have hstem : stem.toList ≠ [] := fun h => hstem (String.toList_inj.mp h)
  have hscene : '/' ∉ (stem ++ ".xml").toList := by simp [h]
  have hscript := slash_not_mem_scriptName h
  have hname : (scriptName stem).toList =
      if stem.toList = ['.'] then ['.', '.'] else stem.toList ++ '.' :: ['j', 's'] := by
    unfold scriptName
    by_cases hdot : stem = "."
    · simp [hdot]
    · have hdots : stem.toList ≠ ['.'] := fun h => hdot (String.toList_inj.mp h)
      simp [hdot, hdots]
  refine String.toList_inj.mp ?_
  rw [scriptFor, String.toList_ofList, toList_join directory hscene, toList_join directory hscript,
    String.toList_append, hname]
  exact withExtension_below _ hstem h (by decide) (by decide)

theorem getLast?_scriptName (stem : String) :
    (scriptName stem).toList.getLast? = some (if stem = "." then '.' else 's') := by
  unfold scriptName
  split <;> simp

theorem scriptName_inj {stem' : String} : scriptName stem = scriptName stem' ↔ stem = stem' := by
  refine ⟨fun h => ?_, fun h => h ▸ rfl⟩
  have hlast := congrArg (·.toList.getLast?) h
  simp only [getLast?_scriptName, Option.some.injEq] at hlast
  unfold scriptName at h
  split at hlast <;> split at hlast <;> simp_all

theorem script_ne_scene (stem stem' : String) : stem ++ ".js" ≠ stem' ++ ".xml" := by
  intro h
  have hlast := congrArg (·.toList.getLast?) h
  simp at hlast

theorem scriptName_ne_scene (stem stem' : String) : scriptName stem ≠ stem' ++ ".xml" := by
  intro h
  have hlast := congrArg (·.toList.getLast?) h
  simp only [getLast?_scriptName, String.toList_append] at hlast
  split at hlast <;> simp at hlast

theorem IsName.slash_not_mem {extension : String} (h : IsName (stem ++ extension)) :
    '/' ∉ stem.toList :=
  fun hmem => h.2.2.2 (by simp [hmem])

section Scenes

variable {stem' : String}

theorem scriptFor_inj (hstem : stem ≠ "") (hstem' : stem' ≠ "") (h : IsName (stem ++ ".xml"))
    (h' : IsName (stem' ++ ".xml")) :
    scriptFor (join directory (stem ++ ".xml")) = scriptFor (join directory (stem' ++ ".xml")) ↔
      stem = stem' := by
  rw [scriptFor_join directory hstem h.slash_not_mem,
    scriptFor_join directory hstem' h'.slash_not_mem,
    join_inj (slash_not_mem_scriptName h.slash_not_mem)
      (slash_not_mem_scriptName h'.slash_not_mem),
    scriptName_inj]

theorem scriptFor_ne_scene (hstem : stem ≠ "") (h : IsName (stem ++ ".xml"))
    (h' : IsName (stem' ++ ".xml")) :
    scriptFor (join directory (stem ++ ".xml")) ≠ join directory (stem' ++ ".xml") := by
  rw [scriptFor_join directory hstem h.slash_not_mem, Ne,
    join_inj (slash_not_mem_scriptName h.slash_not_mem) h'.2.2.2]
  exact scriptName_ne_scene stem stem'

end Scenes

theorem isName_script (h : '/' ∉ stem.toList) : IsName (stem ++ ".js") := by
  have hlast : (stem ++ ".js").toList.getLast? = some 's' := by simp
  refine ⟨?_, ?_, ?_, by simp [h]⟩ <;> intro hname <;> simp [hname] at hlast

/-- Paths that are seen from everywhere alike. -/
def IsAbsolute (path : String) : Prop := ['/'].isPrefixOf path.toList = true

instance (path : String) : Decidable (IsAbsolute path) :=
  inferInstanceAs (Decidable (['/'].isPrefixOf path.toList = true))

theorem join_of_isAbsolute {path : String} (directory : String) (h : IsAbsolute path) :
    join directory path = path :=
  if_pos h

theorem IsAbsolute.join {directory : String} (h : IsAbsolute directory) (path : String) :
    IsAbsolute (join directory path) := by
  have hbelow : ∀ rest, IsAbsolute (directory ++ rest) := by
    intro rest
    rw [IsAbsolute, List.isPrefixOf_iff_prefix] at h ⊢
    rw [String.toList_append]
    exact h.trans (List.prefix_append _ _)
  unfold Path.join
  split
  · next hpath => exact hpath
  · split
    · exact hbelow path
    · rw [String.append_assoc]
      exact hbelow _

end Join

end SceneDispatch.Path

import SceneDispatch.Files.Tree
import SceneDispatch.Proofs.Files.Paths
/-!
What an existing directory of a file tree holds. A path that ends in a name of the directory leads
to the place of that name, so reading and writing there depend on its content alone. The listing of
the directory has every name in it once.
-/
namespace SceneDispatch

theorem FileContent.kind_eq_file {content : FileContent} :
    content.kind = .file ↔ ∃ bytes, content = .file bytes := by
  cases content <;> simp [kind]

namespace FileTree

/-- Names in the tree are such that a path can lead to them. -/
def WellNamed (t : FileTree) : Prop := ∀ e ∈ t.entries, ∀ name ∈ e.path, Path.IsName name

instance (t : FileTree) : Decidable t.WellNamed :=
  inferInstanceAs (Decidable (∀ e ∈ t.entries, ∀ name ∈ e.path, Path.IsName name))

/-- The path leads to a directory. -/
structure Opens (t : FileTree) (directory : String) (place : List String) : Prop where
  located : t.locate directory = .ok place
  isDirectory : t.content? place = some .directory

section Content

variable {t : FileTree}

theorem content?_of_ne_nil {path : List String} (h : path ≠ []) :
    t.content? path = (t.find? path).map FileEntry.content := by
  rw [content?, if_neg (by simpa using h)]

theorem content?_enter {e : FileEntry} (he : e.path ≠ []) (path : List String) :
    (t.enter e).content? path = if e.path = path then some e.content else t.content? path := by
  by_cases hroot : path = []
  · subst hroot
    rw [if_neg he]
    rfl
  · rw [content?_of_ne_nil hroot, content?_of_ne_nil hroot, find?_enter]
    split <;> rfl

theorem content?_concat_eq_some {directory : List String} {name : String} {content : FileContent} :
    t.content? (directory ++ [name]) = some content ↔
      ⟨directory ++ [name], content⟩ ∈ t.entries := by
  rw [content?_of_ne_nil (by simp), Option.map_eq_some_iff]
  constructor
  · rintro ⟨e, he, rfl⟩
    obtain ⟨hmem, hpath⟩ := OrderedTable.find?_eq_some_iff.mp he
    rwa [← hpath]
  · exact fun h => ⟨_, OrderedTable.find?_eq_some_iff.mpr ⟨h, rfl⟩, rfl⟩

end Content

/-! ### Listing -/

section Listing

variable {t : FileTree} {place : List String}

/-- An entry is listed in the directory that its path leads through last. -/
theorem listed_eq_some {e : FileEntry} {l : Listed} :
    (if e.path.dropLast = place then e.path.getLast?.map (Listed.mk · e.content.kind) else none) =
        some l ↔
      e.path = place ++ [l.name] ∧ e.content.kind = l.kind := by
  rw [Option.ite_none_right_eq_some, Option.map_eq_some_iff]
  constructor
  · rintro ⟨rfl, name, hlast, rfl⟩
    exact ⟨(List.dropLast_append_getLast? _ hlast).symm, rfl⟩
  · rintro ⟨hpath, hkind⟩
    simp [hpath, hkind]

theorem mem_listing {l : Listed} :
    l ∈ t.listing place ↔
      ∃ content, t.content? (place ++ [l.name]) = some content ∧ content.kind = l.kind := by
  simp only [listing, List.mem_filterMap, listed_eq_some, content?_concat_eq_some]
  constructor
  · rintro ⟨⟨path, content⟩, he, rfl, hkind⟩
    exact ⟨content, he, hkind⟩
  · rintro ⟨content, he, hkind⟩
    exact ⟨_, he, rfl, hkind⟩

theorem mem_listing_file {name : String} :
    ⟨name, .file⟩ ∈ t.listing place ↔
      ∃ bytes, t.content? (place ++ [name]) = some (.file bytes) := by
  simp only [mem_listing, FileContent.kind_eq_file]
  constructor
  · rintro ⟨_, hcontent, bytes, rfl⟩
    exact ⟨bytes, hcontent⟩
  · rintro ⟨bytes, hcontent⟩
    exact ⟨_, hcontent, bytes, rfl⟩

theorem nodup_listing (t : FileTree) (place : List String) :
    ((t.listing place).map Listed.name).Nodup := by
  refine List.pairwise_map.mpr (List.pairwise_filterMap.mpr (t.sorted.imp ?_))
  intro e e' hlt l hl l' hl' hname
  have hpath : e.path = e'.path := by
    rw [(listed_eq_some.mp hl).1, (listed_eq_some.mp hl').1, hname]
  rw [hpath] at hlt
  exact List.lt_irrefl _ hlt

end Listing

/-! ### Following paths -/

section Walk

variable {t : FileTree} {here place : List String}

/-- The steps pass through directories only and end in one. -/
inductive Leads (t : FileTree) : List String → List String → List String → Prop
  | nil {here : List String} : Leads t here [] here
  | dot {here steps place : List String} (h : Leads t here steps place) :
    Leads t here ("." :: steps) place
  | above {here steps place : List String} (h : Leads t here.dropLast steps place) :
    Leads t here (".." :: steps) place
  | into {here steps place : List String} {name : String} (hname : isDots name = false)
    (hlookup : t.lookup here name = .ok (some .directory))
    (h : Leads t (here ++ [name]) steps place) : Leads t here (name :: steps) place

theorem lookup_eq_ok {name : String} {content : Option FileContent} :
    t.lookup here name = .ok content ↔
      name.utf8ByteSize ≤ Path.nameLimit ∧ t.content? (here ++ [name]) = content := by
  unfold lookup
  split
  · next hlong => simp [Nat.not_le.mpr hlong]
  · next hshort => simp [Nat.le_of_not_lt hshort]

theorem isDots_eq_false {name : String} : isDots name = false ↔ name ≠ "." ∧ name ≠ ".." := by
  simp [isDots]

theorem walk_name {name : String} (h : isDots name = false) (here : List String) :
    t.walk here [name] =
      t.lookup here name >>= fun content =>
        content.elim (.error .missing) fun _ => .ok (here ++ [name]) := by
  obtain ⟨hdot, hdots⟩ := isDots_eq_false.mp h
  rw [walk.eq_4 _ _ _ _ hdot hdots]
  cases t.lookup here name with
  | error fault => rfl
  | ok content =>
    cases content with
    | none => rfl
    | some content => cases content <;> rfl

theorem walk_directory {name : String} {steps : List String} (h : isDots name = false)
    (hlookup : t.lookup here name = .ok (some .directory)) :
    t.walk here (name :: steps) = t.walk (here ++ [name]) steps := by
  obtain ⟨hdot, hdots⟩ := isDots_eq_false.mp h
  rw [walk.eq_4 _ _ _ _ hdot hdots, hlookup]

theorem leads_of_walk {steps : List String} (h : t.walk here steps = .ok place)
    (hplace : t.content? place = some .directory) : Leads t here steps place := by
  fun_induction walk t here steps with
  | case1 here =>
    cases h
    exact .nil
  | case2 here steps ih => exact .dot (ih h)
  | case3 here steps ih => exact .above (ih h)
  | case6 here name steps _ _ bytes hlookup =>
    -- the last step to a file does not lead to a directory
    cases h
    have hcontent := (lookup_eq_ok.mp hlookup).2
    rw [hplace] at hcontent
    cases hcontent
  | case8 here name steps hdot hdots hlookup ih =>
    exact .into (isDots_eq_false.mpr ⟨hdot, hdots⟩) hlookup (ih h)
  | _ => cases h

theorem Leads.walk_append {steps : List String} (h : Leads t here steps place)
    (more : List String) : t.walk here (steps ++ more) = t.walk place more := by
  induction h with
  | nil => rfl
  | dot _ ih => exact ih
  | above _ ih => exact ih
  | into hname hlookup _ ih => exact (walk_directory hname hlookup).trans ih

theorem Leads.of_concat_dot {steps : List String} (h : Leads t here (steps ++ ["."]) place) :
    Leads t here steps place := by
  generalize hall : steps ++ ["."] = all at h
  induction h generalizing steps with
  | nil => simp at hall
  | dot h ih =>
    rcases List.append_eq_cons_iff.mp hall with ⟨rfl, hrest⟩ | ⟨steps, rfl, hrest⟩
    · cases hrest
      exact h
    · exact .dot (ih hrest.symm)
  | above h ih =>
    rcases List.append_eq_cons_iff.mp hall with ⟨rfl, hrest⟩ | ⟨steps, rfl, hrest⟩
    · simp at hrest
    · exact .above (ih hrest.symm)
  | into hname hlookup h ih =>
    rcases List.append_eq_cons_iff.mp hall with ⟨rfl, hrest⟩ | ⟨steps, rfl, hrest⟩
    · cases hrest
      cases hname
    · exact .into hname hlookup (ih hrest.symm)

theorem Leads.mono {t' : FileTree} {steps : List String}
    (hkept : ∀ path, t.content? path = some .directory → t'.content? path = some .directory)
    (h : Leads t here steps place) : Leads t' here steps place := by
  induction h with
  | nil => exact .nil
  | dot _ ih => exact .dot ih
  | above _ ih => exact .above ih
  | into hname hlookup _ ih =>
    obtain ⟨hshort, hcontent⟩ := lookup_eq_ok.mp hlookup
    exact .into hname (lookup_eq_ok.mpr ⟨hshort, hkept _ hcontent⟩) ih

end Walk

section Steps

variable {directory name : String}

/-- The steps that a path takes before the name that is joined to it. -/
def stepsBefore (directory : String) : List String :=
  ((Path.parts (Path.before directory)).map String.ofList).filter (· ≠ "")

theorem steps_join (directory : String) (hne : name ≠ "") (hslash : '/' ∉ name.toList) :
    steps (Path.join directory name) = stepsBefore directory ++ [name] := by
  rw [steps, Path.toList_join directory hslash, Path.parts_below _ hslash, List.map_append,
    List.map_singleton, String.ofList_toList]
  simp only [List.dropLast_concat, List.getLast?_concat, Option.toList_some, List.map_singleton,
    if_neg hne, stepsBefore]

theorem steps_eq_or (directory : String) :
    steps directory = stepsBefore directory ∨
      steps directory = stepsBefore directory ++ ["."] := by
  unfold stepsBefore Path.before
  split
  · next hslash =>
    right
    have hparts : Path.parts directory.toList = Path.parts directory.toList.dropLast ++ [[]] := by
      conv_lhs => rw [← List.dropLast_append_getLast? _ hslash]
      exact Path.parts_below _ List.not_mem_nil
    simp only [steps, hparts, List.map_append, List.map_singleton, List.dropLast_concat,
      List.getLast?_concat, Option.toList_some]
    rfl
  · obtain hnil | ⟨front, last, hparts⟩ := List.eq_nil_or_concat (Path.parts directory.toList)
    · exact absurd hnil (Path.parts_ne_nil _)
    · by_cases hempty : String.ofList last = "" <;> simp [steps, hparts, hempty]

theorem isSlashed_join (directory : String) (hne : name ≠ "") (hslash : '/' ∉ name.toList) :
    isSlashed (Path.join directory name) = false := by
  have hnil : name.toList ≠ [] := fun h => hne (String.toList_inj.mp h)
  rw [isSlashed, Path.toList_join directory hslash, decide_eq_false_iff_not]
  intro hlast
  refine hslash (List.mem_of_getLast? ?_)
  simpa [List.getLast?_append, List.getLast?_cons, List.getLast?_eq_some_getLast hnil] using hlast

theorem nameSteps_join (directory : String) (hne : name ≠ "") (hslash : '/' ∉ name.toList) :
    nameSteps (Path.join directory name) = stepsBefore directory ++ [name] := by
  rw [nameSteps, isSlashed_join directory hne hslash, if_neg Bool.false_ne_true,
    steps_join directory hne hslash]

theorem checkPath_eq_ok {path : String} :
    checkPath path = .ok () ↔ '\x00' ∉ path.toList ∧ path.utf8ByteSize ≤ Path.pathLimit := by
  unfold checkPath
  by_cases hbroken : '\x00' ∈ path.toList
  · simp [hbroken]
  · by_cases hlong : Path.pathLimit < path.utf8ByteSize
    · simp [hbroken, hlong]
    · simp only [hbroken, hlong, if_false, not_false_iff, true_and, true_iff]
      exact Nat.le_of_not_lt hlong

end Steps

/-! ### Reading and writing in a directory -/

/-- A name whose length, and that of the path to it, are within the limits. -/
structure Fits (directory name : String) : Prop where
  checked : checkPath (Path.join directory name) = .ok ()
  short : name.utf8ByteSize ≤ Path.nameLimit

/-- The name of a script is shorter than that of its scene. -/
theorem Fits.script {directory stem : String} (hslash : '/' ∉ stem.toList)
    (h : Fits directory (stem ++ ".xml")) : Fits directory (Path.scriptName stem) := by
  have hscene : '/' ∉ (stem ++ ".xml").toList := by simp [hslash]
  have hscript : '/' ∉ (Path.scriptName stem).toList := Path.slash_not_mem_scriptName hslash
  have hsize : (Path.scriptName stem).utf8ByteSize ≤ (stem ++ ".xml").utf8ByteSize := by
    unfold Path.scriptName
    split
    · next hdot => rw [hdot]; decide
    · rw [String.utf8ByteSize_append, String.utf8ByteSize_append]
      exact Nat.add_le_add_left (by decide) _
  obtain ⟨hbroken, hlong⟩ := checkPath_eq_ok.mp h.checked
  rw [Path.join_eq directory hscene] at hbroken hlong
  refine ⟨?_, Nat.le_trans hsize h.short⟩
  rw [checkPath_eq_ok, Path.join_eq directory hscript]
  constructor
  · simp only [String.toList_append, List.mem_append, not_or] at hbroken ⊢
    refine ⟨hbroken.1, ?_⟩
    unfold Path.scriptName
    split
    · decide
    · simpa using hbroken.2.1
  · rw [String.utf8ByteSize_append] at hlong ⊢
    omega

/-- The text that a directory holds under a name. -/
def textAt (t : FileTree) (directory : String) (place : List String) (name : String) :
    Except FileFault String := do
  checkPath (Path.join directory name)
  match ← t.lookup place name with
  | none => .error .missing
  | some .directory => .error .isDirectory
  | some (.file bytes) =>
    match String.fromUTF8? bytes with
    | some text => .ok text
    | none => .error .notText

theorem textAt_congr {t t' : FileTree} {place : List String} {name : String} (directory : String)
    (h : t'.content? (place ++ [name]) = t.content? (place ++ [name])) :
    t'.textAt directory place name = t.textAt directory place name := by
  rw [textAt, textAt, lookup, lookup, h]

theorem fits_of_textAt {t : FileTree} {directory name source : String} {place : List String}
    (h : t.textAt directory place name = .ok source) : Fits directory name := by
  rw [textAt] at h
  cases hcheck : checkPath (Path.join directory name) with
  | error fault =>
    rw [hcheck] at h
    cases h
  | ok =>
    refine ⟨hcheck, Nat.le_of_not_lt fun hlong => ?_⟩
    rw [hcheck, lookup, if_pos hlong] at h
    cases h

section Located

variable {t t' : FileTree} {path : String} {here place : List String}

/-- A walk ends where it did when directories stay and the end does. -/
theorem walk_kept {steps : List String}
    (hkept : ∀ path, t.content? path = some .directory → t'.content? path = some .directory)
    (hplace : t'.content? place = t.content? place) (h : t.walk here steps = .ok place) :
    t'.walk here steps = .ok place := by
  fun_induction walk t here steps with
  | case1 here => exact h
  | case2 here steps ih => exact ih h
  | case3 here steps ih => exact ih h
  | case6 here name steps hdot hdots bytes hlookup hlast =>
    cases h
    obtain ⟨hshort, hcontent⟩ := lookup_eq_ok.mp hlookup
    have hlookup : t'.lookup here name = .ok (some (.file bytes)) :=
      lookup_eq_ok.mpr ⟨hshort, hplace.trans hcontent⟩
    rw [walk.eq_4 _ _ _ _ hdot hdots, hlookup]
    exact if_pos hlast
  | case8 here name steps hdot hdots hlookup ih =>
    obtain ⟨hshort, hcontent⟩ := lookup_eq_ok.mp hlookup
    have hlookup : t'.lookup here name = .ok (some .directory) :=
      lookup_eq_ok.mpr ⟨hshort, hkept _ hcontent⟩
    rw [walk_directory (isDots_eq_false.mpr ⟨hdot, hdots⟩) hlookup]
    exact ih h
  | _ => cases h

theorem locate_eq_ok :
    t.locate path = .ok place ↔ checkPath path = .ok () ∧ t.walk [] (steps path) = .ok place := by
  rw [locate]
  cases checkPath path with
  | error fault => simp [bind, Except.bind]
  | ok => simp [bind, Except.bind]

theorem find_eq_ok {content : FileContent} :
    t.find path = .ok content ↔
      ∃ place, t.locate path = .ok place ∧ t.content? place = some content := by
  rw [find]
  cases t.locate path with
  | error fault => simp [bind, Except.bind]
  | ok place => cases hcontent : t.content? place <;> simp [bind, Except.bind, hcontent]

theorem find_kept
    (hkept : ∀ path, t.content? path = some .directory → t'.content? path = some .directory)
    (hplace : t'.content? place = t.content? place) (h : t.locate path = .ok place) :
    t'.locate path = .ok place ∧ t'.find path = t.find path := by
  obtain ⟨hchecked, hwalk⟩ := locate_eq_ok.mp h
  have hlocated := locate_eq_ok.mpr ⟨hchecked, walk_kept hkept hplace hwalk⟩
  refine ⟨hlocated, ?_⟩
  rw [find, find, h, hlocated]
  simp only [bind, Except.bind, hplace]

theorem kind_of_find {bytes : ByteArray} (h : t.find path = .ok (.file bytes)) :
    t.kind path = .ok .file := by
  rw [FileTree.kind, h]
  rfl

theorem exists_of_kind {kind : FileKind} (h : t.kind path = .ok kind) :
    ∃ place content, t.locate path = .ok place ∧ t.content? place = some content ∧
      t.find path = .ok content := by
  rw [FileTree.kind] at h
  cases hfound : t.find path with
  | error fault =>
    rw [hfound] at h
    cases h
  | ok content =>
    obtain ⟨place, hlocated, hcontent⟩ := find_eq_ok.mp hfound
    exact ⟨place, content, hlocated, hcontent, rfl⟩

theorem exists_opens (h : t.kind path = .ok .directory) : ∃ place, t.Opens path place := by
  obtain ⟨place, content, hlocated, hcontent, hfound⟩ := exists_of_kind h
  rw [FileTree.kind, hfound] at h
  cases content with
  | file bytes => cases h
  | directory => exact ⟨place, hlocated, hcontent⟩

end Located

namespace Opens

variable {t t' : FileTree} {directory name : String} {place : List String}

theorem checked (h : t.Opens directory place) : checkPath directory = .ok () :=
  (locate_eq_ok.mp h.located).1

theorem kind_eq (h : t.Opens directory place) : t.kind directory = .ok .directory := by
  rw [kind, find_eq_ok.mpr ⟨place, h.located, h.isDirectory⟩]
  rfl

theorem leads_steps (h : t.Opens directory place) : Leads t [] (steps directory) place :=
  leads_of_walk (locate_eq_ok.mp h.located).2 h.isDirectory

theorem leads (h : t.Opens directory place) : Leads t [] (stepsBefore directory) place := by
  have hleads := h.leads_steps
  rcases steps_eq_or directory with hsteps | hsteps
  · rwa [hsteps] at hleads
  · rw [hsteps] at hleads
    exact hleads.of_concat_dot

/-- A directory stays where it is when directories do. -/
theorem mono (h : t.Opens directory place)
    (hkept : ∀ path, t.content? path = some .directory → t'.content? path = some .directory) :
    t'.Opens directory place := by
  refine ⟨?_, hkept place h.isDirectory⟩
  have hwalk := (h.leads_steps.mono hkept).walk_append []
  rw [List.append_nil] at hwalk
  rw [locate, h.checked]
  exact hwalk

theorem locate_join (h : t.Opens directory place) (hname : Path.IsName name) :
    t.locate (Path.join directory name) =
      checkPath (Path.join directory name) >>= fun _ =>
        t.lookup place name >>= fun content =>
          content.elim (.error .missing) fun _ => .ok (place ++ [name]) := by
  obtain ⟨hne, hdot, hdots, hslash⟩ := hname
  rw [locate, steps_join directory hne hslash, h.leads.walk_append,
    walk_name (isDots_eq_false.mpr ⟨hdot, hdots⟩)]

theorem find_join (h : t.Opens directory place) (hname : Path.IsName name) :
    t.find (Path.join directory name) =
      checkPath (Path.join directory name) >>= fun _ =>
        t.lookup place name >>= fun content => content.elim (.error .missing) .ok := by
  rw [find, h.locate_join hname]
  cases checkPath (Path.join directory name) with
  | error fault => rfl
  | ok =>
    cases hlookup : t.lookup place name with
    | error fault => rfl
    | ok content =>
      cases content with
      | none => rfl
      | some content =>
        simp [bind, Except.bind, (lookup_eq_ok.mp hlookup).2]

theorem read_join (h : t.Opens directory place) (hname : Path.IsName name) :
    t.read (Path.join directory name) = t.textAt directory place name := by
  rw [read, h.find_join hname, textAt]
  cases checkPath (Path.join directory name) with
  | error fault => rfl
  | ok =>
    cases t.lookup place name with
    | error fault => rfl
    | ok content =>
      cases content with
      | none => rfl
      | some content => cases content <;> rfl

theorem eq_of_locate {target : List String} (h : t.Opens directory place)
    (hname : Path.IsName name) (htarget : t.locate (Path.join directory name) = .ok target) :
    target = place ++ [name] := by
  rw [h.locate_join hname] at htarget
  cases hchecked : checkPath (Path.join directory name) with
  | error fault => simp [hchecked, bind, Except.bind] at htarget
  | ok _ =>
    cases hlookup : t.lookup place name with
    | error fault => simp [hchecked, hlookup, bind, Except.bind] at htarget
    | ok content =>
      cases content with
      | none => simp [hchecked, hlookup, bind, Except.bind] at htarget
      | some content => simpa [hchecked, hlookup, bind, Except.bind] using htarget.symm

/-- A dot behind the path of a directory leads nowhere else. -/
theorem dot (h : t.Opens directory place)
    (hchecked : checkPath (Path.join directory ".") = .ok ()) :
    t.Opens (Path.join directory ".") place := by
  refine ⟨?_, h.isDirectory⟩
  rw [locate, hchecked, steps_join directory (by decide) (by decide)]
  exact h.leads.walk_append ["."]

theorem locate_of_fits {content : FileContent} (h : t.Opens directory place)
    (hname : Path.IsName name) (hfits : Fits directory name)
    (hcontent : t.content? (place ++ [name]) = some content) :
    t.locate (Path.join directory name) = .ok (place ++ [name]) := by
  rw [h.locate_join hname, hfits.checked, lookup_eq_ok.mpr ⟨hfits.short, hcontent⟩]
  rfl

theorem write_join (h : t.Opens directory place) (hname : Path.IsName name)
    (hfits : Fits directory name) (text : String) :
    t.write (Path.join directory name) text =
      if t.content? (place ++ [name]) = some .directory then .error .isDirectory
      else .ok (t.enter ⟨place ++ [name], .file text.toUTF8⟩) := by
  obtain ⟨hne, hdot, hdots, hslash⟩ := hname
  have hplace : t.walk [] (stepsBefore directory ++ ["."]) = .ok place := h.leads.walk_append ["."]
  have hlookup : t.lookup place name = .ok (t.content? (place ++ [name])) :=
    lookup_eq_ok.mpr ⟨hfits.short, rfl⟩
  have htarget : t.target (Path.join directory name) =
      if t.content? (place ++ [name]) = some .directory then .error .isDirectory
      else .ok (place ++ [name]) := by
    rw [target, hfits.checked, nameSteps_join directory hne hslash]
    simp only [List.getLast?_concat, isDots_eq_false.mpr ⟨hdot, hdots⟩, List.dropLast_concat,
      hplace, isSlashed_join directory hne hslash, bind, Except.bind, Bool.false_eq_true, if_false,
      hlookup]
  rw [write, htarget]
  split <;> rfl

/-- The directory above an existing one is there, and no file. -/
theorem write_above (h : t.Opens directory place)
    (hchecked : checkPath (Path.join directory "..") = .ok ()) (text : String) :
    t.write (Path.join directory "..") text = .error .isDirectory := by
  have hplace : t.walk [] (stepsBefore directory ++ [".."] ++ ["."]) = .ok place.dropLast := by
    rw [List.append_assoc]
    exact h.leads.walk_append _
  have htarget : t.target (Path.join directory "..") = .error .isDirectory := by
    rw [target, hchecked, nameSteps_join directory (by decide) (by decide)]
    simp only [List.getLast?_concat, hplace]
    rfl
  rw [write, htarget]
  rfl

/-- A script can be written unless a directory has its place. -/
theorem write_script {stem : String} (h : t.Opens directory place) (hslash : '/' ∉ stem.toList)
    (hfits : Fits directory (stem ++ ".xml")) (text : String) :
    t.write (Path.join directory (Path.scriptName stem)) text =
      if stem = "." ∨ t.content? (place ++ [stem ++ ".js"]) = some .directory then
        .error .isDirectory
      else .ok (t.enter ⟨place ++ [stem ++ ".js"], .file text.toUTF8⟩) := by
  have hfits := hfits.script hslash
  by_cases hdot : stem = "."
  · subst hdot
    exact h.write_above hfits.checked text
  · have hscript : Path.scriptName stem = stem ++ ".js" := if_neg hdot
    rw [hscript] at hfits ⊢
    rw [h.write_join (Path.isName_script hslash) hfits]
    simp only [hdot, false_or]

end Opens

end FileTree

end SceneDispatch

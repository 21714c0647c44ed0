import SceneDispatch.Files.Compile
import SceneDispatch.Proofs.Files.Directory
import Mathlib.Data.List.Nodup
import Mathlib.Data.Set.List
/-!
Batches on a file tree. The scenes of a directory are picked from a listing of it, in whatever
order the listing comes. What becomes of a scene is told from the tree before the batch, since a
script never takes the place of a scene or of a directory. Main statement: a batch writes the
scripts of the scenes before the first one that fails and changes nothing else.
-/
namespace SceneDispatch

theorem Fault.api_not_prefix_code (fault : Fault) :
    "API_".toList.isPrefixOf fault.code.toList = false := by
  cases fault with
  | lookup cause => cases cause <;> simp [code, LookupFault.code, List.isPrefixOf]
  | lookupAt _ cause => cases cause <;> simp [code, LookupFault.code, List.isPrefixOf]
  | _ => simp [code, List.isPrefixOf]

namespace Filing

/-! ### The scenes of a listing -/

section Listing

variable {listing listing' : List Listed}

theorem mem_sceneNames {name : String} :
    name ∈ sceneNames listing ↔ ⟨name, .file⟩ ∈ listing ∧ Path.hasExtension "xml" name = true := by
  simp only [sceneNames, List.mem_mergeSort, List.mem_map, List.mem_filter, isScene,
    Bool.and_eq_true, decide_eq_true_eq]
  constructor
  · rintro ⟨⟨_, _⟩, ⟨hmem, rfl, hextension⟩, rfl⟩
    exact ⟨hmem, hextension⟩
  · rintro ⟨hmem, hextension⟩
    exact ⟨_, ⟨hmem, rfl, hextension⟩, rfl⟩

theorem pairwise_le_sceneNames (listing : List Listed) :
    (sceneNames listing).Pairwise (· ≤ ·) := by
  have hsorted := @List.pairwise_mergeSort String (fun a b => decide (a ≤ b))
    (fun _ _ _ hab hbc => decide_eq_true
      (String.le_trans (of_decide_eq_true hab) (of_decide_eq_true hbc)))
    (fun a b => by simpa using String.le_total a b) ((listing.filter isScene).map Listed.name)
  exact hsorted.imp of_decide_eq_true

theorem sorted_sceneNames (hnodup : (listing.map Listed.name).Nodup) :
    (sceneNames listing).Pairwise (· < ·) := by
  have hscenes : (sceneNames listing).Nodup :=
    (List.mergeSort_perm _ _).nodup_iff.mpr
      (hnodup.sublist ((List.filter_sublist (p := isScene)).map Listed.name))
  refine (pairwise_le_sceneNames listing).imp₂ (fun name other hle hne => ?_) hscenes
  exact String.not_le.mp fun hge => hne (String.le_antisymm hle hge)

/-- It does not matter in which order a directory is listed. -/
theorem sceneNames_perm (h : listing.Perm listing') :
    sceneNames listing = sceneNames listing' := by
  refine List.Perm.eq_of_pairwise (fun _ _ _ _ hle hge => String.le_antisymm hle hge)
    (pairwise_le_sceneNames listing) (pairwise_le_sceneNames listing') ?_
  have hscenes := (h.filter isScene).map Listed.name
  exact (List.mergeSort_perm _ _).trans (hscenes.trans (List.mergeSort_perm _ _).symm)

end Listing

/-! ### Running on a file tree -/

/-- What a computation with access to a file tree returns, and the tree behind it. -/
def runOn {α : Type} (x : Filing (StateM FileTree) α) (t : FileTree) :
    Except Diagnostic α × FileTree :=
  x.run.run t

section RunOn

variable {α β : Type} {x : Filing (StateM FileTree) α} {t t' : FileTree}

theorem runOn_bind (x : Filing (StateM FileTree) α) (f : α → Filing (StateM FileTree) β)
    (t : FileTree) : (x >>= f).runOn t = (ExceptT.bindCont f (x.runOn t).1).run (x.runOn t).2 :=
  rfl

theorem runOn_bind_ok {a : α} (h : x.runOn t = (.ok a, t')) (f : α → Filing (StateM FileTree) β) :
    (x >>= f).runOn t = (f a).runOn t' := by
  rw [runOn_bind, h]
  rfl

theorem runOn_bind_error {d : Diagnostic} (h : x.runOn t = (.error d, t'))
    (f : α → Filing (StateM FileTree) β) : (x >>= f).runOn t = (.error d, t') := by
  rw [runOn_bind, h]
  rfl

theorem runOn_lift (action : StateM FileTree α) (t : FileTree) :
    runOn (ExceptT.lift action) t = (.ok (action.run t).1, (action.run t).2) :=
  rfl

theorem runOn_catch {result : Except Diagnostic α} (h : x.runOn t = (result, t'))
    (f : Diagnostic → Diagnostic) :
    runOn (tryCatch x fun d => throw (f d)) t = (result.mapError f, t') := by
  -- of the first step only its outcome on this tree matters
  have houtcome : runOn (tryCatch x fun d => throw (f d)) t =
      runOn (tryCatch (fun _ => x.runOn t : Filing (StateM FileTree) α) fun d => throw (f d)) t :=
        rfl
  rw [houtcome, h]
  cases result <;> rfl

theorem runOn_access_ok {action : StateM FileTree (Except FileFault α)} {a : α}
    (code path : String)
    (h : action.run t = (.ok a, t')) : (access code path action).runOn t = (.ok a, t') := by
  rw [access, runOn_bind, runOn_lift, h]
  rfl

theorem runOn_access_error {action : StateM FileTree (Except FileFault α)} {fault : FileFault}
    (code path : String) (h : action.run t = (.error fault, t')) :
    (access code path action).runOn t =
      (.error ⟨code, path ++ ": " ++ fault.text, none⟩, t') := by
  rw [access, runOn_bind, runOn_lift, h]
  rfl

end RunOn

section Files

variable {t t' : FileTree} {r : Registry} {date path text input source : String} {script : Script}
  {fault : FileFault}

theorem runOn_read_ok (code : String) (h : t.read path = .ok source) :
    (access code path (FileTree.storage.read path)).runOn t = (.ok source, t) :=
  runOn_access_ok _ _ (congrArg (·, t) h)

theorem runOn_read_error (code : String) (h : t.read path = .error fault) :
    (access code path (FileTree.storage.read path)).runOn t =
      (.error ⟨code, path ++ ": " ++ fault.text, none⟩, t) :=
  runOn_access_error _ _ (congrArg (·, t) h)

theorem runOn_write_ok (code : String) (h : t.write path text = .ok t') :
    (access code path (FileTree.storage.write path text)).runOn t = (.ok (), t') := by
  have hwrite : (FileTree.storage.write path text).run t = pure (.ok (), t') := by
    simp [FileTree.storage, h]
  exact runOn_access_ok _ _ hwrite

theorem runOn_write_error (code : String) (h : t.write path text = .error fault) :
    (access code path (FileTree.storage.write path text)).runOn t =
      (.error ⟨code, path ++ ": " ++ fault.text, none⟩, t) := by
  have hwrite : (FileTree.storage.write path text).run t = pure (.error fault, t) := by
    simp [FileTree.storage, h]
  exact runOn_access_error _ _ hwrite

theorem compileFile_unread (r : Registry) (date : String) (h : t.read input = .error fault) :
    (compileFile FileTree.storage r input none date).runOn t =
      (.error ⟨"API_SOURCE_READ", input ++ ": " ++ fault.text, none⟩, t) := by
  rw [compileFile, runOn_bind_error (runOn_read_error _ h)]

theorem compileFile_refused {fault : Fault} (h : t.read input = .ok source)
    (hcompile : r.compile source date = .error fault) :
    (compileFile FileTree.storage r input none date).runOn t = (.error fault.diagnostic, t) := by
  have hrefused : runOn (ofFault (.error fault : Except Fault Script)) t =
      (.error fault.diagnostic, t) := rfl
  rw [compileFile, runOn_bind_ok (runOn_read_ok _ h), hcompile, runOn_bind_error hrefused]

theorem runOn_compileFile (h : t.read input = .ok source)
    (hcompile : r.compile source date = .ok script) :
    (compileFile FileTree.storage r input none date).runOn t =
      (access "API_OUTPUT_WRITE" (Path.scriptFor input)
        (FileTree.storage.write (Path.scriptFor input) script.source) >>= fun _ =>
          pure ⟨input, Path.scriptFor input, script⟩).runOn t := by
  have hcompiled : runOn (ofFault (.ok script)) t = (.ok script, t) := rfl
  rw [compileFile, runOn_bind_ok (runOn_read_ok _ h), hcompile, runOn_bind_ok hcompiled]
  simp only [Option.getD_none]

theorem compileFile_unwritten (h : t.read input = .ok source)
    (hcompile : r.compile source date = .ok script)
    (hwrite : t.write (Path.scriptFor input) script.source = .error fault) :
    (compileFile FileTree.storage r input none date).runOn t =
      (.error ⟨"API_OUTPUT_WRITE", Path.scriptFor input ++ ": " ++ fault.text, none⟩, t) := by
  rw [runOn_compileFile h hcompile]
  exact runOn_bind_error (runOn_write_error _ hwrite) _

theorem compileFile_written (h : t.read input = .ok source)
    (hcompile : r.compile source date = .ok script)
    (hwrite : t.write (Path.scriptFor input) script.source = .ok t') :
    (compileFile FileTree.storage r input none date).runOn t =
      (.ok ⟨input, Path.scriptFor input, script⟩, t') := by
  rw [runOn_compileFile h hcompile]
  exact runOn_bind_ok (runOn_write_ok _ hwrite) _

/-- One step of a batch. -/
def attempting (r : Registry) (date input : String) : Filing (StateM FileTree) CompiledFile :=
  tryCatch (compileFile FileTree.storage r input none date) fun d => throw (inBatch input d)

theorem compileAll_cons_error {inputs : List String} {d : Diagnostic}
    (h : (attempting r date input).runOn t = (.error d, t')) :
    (compileAll FileTree.storage r date (input :: inputs)).runOn t = (.error d, t') := by
  rw [compileAll]
  exact runOn_bind_error h _

theorem compileAll_cons_ok {inputs : List String} {file : CompiledFile}
    (h : (attempting r date input).runOn t = (.ok file, t')) :
    (compileAll FileTree.storage r date (input :: inputs)).runOn t =
      (((compileAll FileTree.storage r date inputs).runOn t').1.map (file :: ·),
        ((compileAll FileTree.storage r date inputs).runOn t').2) := by
  rw [compileAll]
  refine (runOn_bind_ok h _).trans ?_
  rw [runOn_bind]
  cases ((compileAll FileTree.storage r date inputs).runOn t').1 <;> rfl

theorem inBatch_access {code message : String} (h : "API_".toList.isPrefixOf code.toList = true) :
    inBatch input ⟨code, message, none⟩ = ⟨code, message, none⟩ :=
  if_pos h

theorem inBatch_fault (fault : Fault) :
    inBatch input fault.diagnostic = ⟨fault.code, input ++ ": " ++ fault.message, fault.span⟩ :=
  if_neg (Bool.eq_false_iff.mp fault.api_not_prefix_code)

end Files

end Filing

/-! ### One scene of a directory -/

namespace FileTree

/-- What becomes of a scene in a directory, told from its stem and the contents of a tree. A failed
access names the path that was accessed, and any other failure names the scene. -/
def attempt (t : FileTree) (r : Registry) (date directory : String) (place : List String)
    (stem : String) : Except Diagnostic Script := do
  let input := Path.join directory (stem ++ ".xml")
  let source ← (t.textAt directory place (stem ++ ".xml")).mapError fun fault =>
    ⟨"API_SOURCE_READ", input ++ ": " ++ fault.text, none⟩
  let script ← (r.compile source date).mapError fun fault =>
    ⟨fault.code, input ++ ": " ++ fault.message, fault.span⟩
  if stem = "." ∨ t.content? (place ++ [stem ++ ".js"]) = some .directory then
    .error ⟨"API_OUTPUT_WRITE",
      Path.join directory (Path.scriptName stem) ++ ": " ++ FileFault.isDirectory.text, none⟩
  else .ok script

/-- The entry for the script of a scene. -/
def scriptEntry (place : List String) (done : String × Script) : FileEntry :=
  ⟨place ++ [done.1 ++ ".js"], .file done.2.source.toUTF8⟩

/-- The file that is reported for a scene whose script was written. -/
def reported (directory : String) (done : String × Script) : CompiledFile :=
  ⟨Path.join directory (done.1 ++ ".xml"), Path.join directory (done.1 ++ ".js"), done.2⟩

section Attempt

variable {t : FileTree} {r : Registry} {date directory stem : String} {place : List String}

section Causes

variable {source : String}

theorem attempt_unread {fault : FileFault} (r : Registry) (date : String)
    (h : t.textAt directory place (stem ++ ".xml") = .error fault) :
    t.attempt r date directory place stem = .error ⟨"API_SOURCE_READ",
      Path.join directory (stem ++ ".xml") ++ ": " ++ fault.text, none⟩ := by
  rw [attempt, h]
  rfl

theorem attempt_refused {fault : Fault}
    (h : t.textAt directory place (stem ++ ".xml") = .ok source)
    (hcompile : r.compile source date = .error fault) :
    t.attempt r date directory place stem = .error ⟨fault.code,
      Path.join directory (stem ++ ".xml") ++ ": " ++ fault.message, fault.span⟩ := by
  simp only [attempt, h, Except.mapError, bind, Except.bind, hcompile]

theorem attempt_compiled {script : Script}
    (h : t.textAt directory place (stem ++ ".xml") = .ok source)
    (hcompile : r.compile source date = .ok script) :
    t.attempt r date directory place stem =
      if stem = "." ∨ t.content? (place ++ [stem ++ ".js"]) = some .directory then
        .error ⟨"API_OUTPUT_WRITE",
          Path.join directory (Path.scriptName stem) ++ ": " ++ FileFault.isDirectory.text, none⟩
      else .ok script := by
  simp only [attempt, h, Except.mapError, bind, Except.bind, hcompile]

end Causes

/-- One step of a batch in a directory. -/
theorem runOn_scene (r : Registry) (date : String) (hopens : t.Opens directory place)
    (hstem : stem ≠ "") (hname : Path.IsName (stem ++ ".xml")) :
    (Filing.attempting r date (Path.join directory (stem ++ ".xml"))).runOn t =
      ((t.attempt r date directory place stem).map fun script => reported directory (stem, script),
        (t.attempt r date directory place stem).toOption.elim t fun script =>
          t.enter (scriptEntry place (stem, script))) := by
  have hslash := hname.slash_not_mem
  have houtput := Path.scriptFor_join directory hstem hslash
  have hread := hopens.read_join hname
  unfold Filing.attempting
  cases htext : t.textAt directory place (stem ++ ".xml") with
  | error fault =>
    rw [htext] at hread
    rw [attempt_unread r date htext, Filing.runOn_catch (Filing.compileFile_unread r date hread),
      Except.mapError, Filing.inBatch_access (by decide)]
    rfl
  | ok source =>
    rw [htext] at hread
    cases hcompile : r.compile source date with
    | error fault =>
      rw [attempt_refused htext hcompile,
        Filing.runOn_catch (Filing.compileFile_refused hread hcompile), Except.mapError,
        Filing.inBatch_fault]
      rfl
    | ok script =>
      have hwrite := hopens.write_script hslash (fits_of_textAt htext) script.source
      rw [← houtput] at hwrite
      rw [attempt_compiled htext hcompile]
      split at hwrite
      · next hblocked =>
        rw [if_pos hblocked,
          Filing.runOn_catch (Filing.compileFile_unwritten hread hcompile hwrite), houtput,
          Except.mapError, Filing.inBatch_access (by decide)]
        rfl
      · next hfree =>
        have hscript : Path.scriptName stem = stem ++ ".js" := if_neg (not_or.mp hfree).1
        rw [if_neg hfree, Filing.runOn_catch (Filing.compileFile_written hread hcompile hwrite),
          houtput, hscript]
        rfl

theorem attempting_error {d : Diagnostic} (hopens : t.Opens directory place) (hstem : stem ≠ "")
    (hname : Path.IsName (stem ++ ".xml"))
    (h : t.attempt r date directory place stem = .error d) :
    (Filing.attempting r date (Path.join directory (stem ++ ".xml"))).runOn t = (.error d, t) := by
  rw [runOn_scene r date hopens hstem hname, h]
  rfl

theorem attempting_ok {script : Script} (hopens : t.Opens directory place) (hstem : stem ≠ "")
    (hname : Path.IsName (stem ++ ".xml"))
    (h : t.attempt r date directory place stem = .ok script) :
    (Filing.attempting r date (Path.join directory (stem ++ ".xml"))).runOn t =
      (.ok (reported directory (stem, script)), t.enter (scriptEntry place (stem, script))) := by
  rw [runOn_scene r date hopens hstem hname, h]
  rfl

theorem of_attempt_eq_ok {script : Script}
    (h : t.attempt r date directory place stem = .ok script) :
    Fits directory (stem ++ ".xml") ∧ stem ≠ "." ∧
      t.content? (place ++ [stem ++ ".js"]) ≠ some .directory := by
  cases htext : t.textAt directory place (stem ++ ".xml") with
  | error fault =>
    rw [attempt_unread r date htext] at h
    cases h
  | ok source =>
    cases hcompile : r.compile source date with
    | error fault =>
      rw [attempt_refused htext hcompile] at h
      cases h
    | ok script =>
      rw [attempt_compiled htext hcompile] at h
      split at h
      · cases h
      · next hfree => exact ⟨fits_of_textAt htext, not_or.mp hfree⟩

section Written

variable (written : String × Script)

theorem content?_written (t : FileTree) (place path : List String) :
    (t.enter (scriptEntry place written)).content? path =
      if place ++ [written.1 ++ ".js"] = path then some (.file written.2.source.toUTF8)
      else t.content? path :=
  content?_enter (by simp [scriptEntry]) path

/-- A script takes the place of no scene. -/
theorem scene_written (t : FileTree) (place : List String) (stem : String) :
    (t.enter (scriptEntry place written)).content? (place ++ [stem ++ ".xml"]) =
      t.content? (place ++ [stem ++ ".xml"]) := by
  have hapart : written.1 ++ ".js" ≠ stem ++ ".xml" := Path.script_ne_scene written.1 stem
  rw [content?_written, if_neg (by simpa using hapart)]

/-- A script takes the place of no directory. -/
theorem isDirectory_written (h : t.attempt r date directory place written.1 = .ok written.2)
    (path : List String) :
    (t.enter (scriptEntry place written)).content? path = some .directory ↔
      t.content? path = some .directory := by
  have hfree := (of_attempt_eq_ok h).2.2
  rw [content?_written]
  split
  · next hpath => simpa [hpath] using hfree
  · rfl

theorem opens_written (hopens : t.Opens directory place)
    (h : t.attempt r date directory place written.1 = .ok written.2) :
    (t.enter (scriptEntry place written)).Opens directory place :=
  hopens.mono fun path => (isDirectory_written written h path).mpr

/-- What becomes of a scene does not change when a script is written, its own or another. -/
theorem attempt_written (h : t.attempt r date directory place written.1 = .ok written.2)
    (stem : String) :
    (t.enter (scriptEntry place written)).attempt r date directory place stem =
      t.attempt r date directory place stem := by
  simp only [attempt, textAt_congr directory (scene_written written t place stem),
    isDirectory_written written h]

end Written

end Attempt

/-! ### Batches -/

/-- The tree with the scripts of scenes written in a directory, one after the other. -/
def withScripts (t : FileTree) (place : List String) (done : List (String × Script)) : FileTree :=
  done.foldl (fun t d => t.enter (scriptEntry place d)) t

/-- The stems of the scenes directly inside a directory, in the order of the names. -/
structure Scenes (t : FileTree) (place stems : List String) : Prop where
  sorted : (stems.map (· ++ ".xml")).Pairwise (· < ·)
  mem_iff (stem : String) : stem ∈ stems ↔
    stem ≠ "" ∧ ∃ bytes, t.content? (place ++ [stem ++ ".xml"]) = some (.file bytes)

theorem Scenes.nodup {t : FileTree} {place stems : List String} (h : t.Scenes place stems) :
    stems.Nodup := by
  have hnames : (stems.map (· ++ ".xml")).Nodup := by
    refine h.sorted.imp fun {name other} hlt hsame => ?_
    exact String.lt_irrefl other (hsame ▸ hlt)
  exact hnames.of_map

section Scripts

variable {t : FileTree} {place : List String} {done : List (String × Script)}

theorem withScripts_cons (t : FileTree) (place : List String) (d : String × Script)
    (done : List (String × Script)) : t.withScripts place (d :: done) =
      (t.enter (scriptEntry place d)).withScripts place done :=
  rfl

theorem content?_withScripts_of_not_mem {path : List String}
    (h : ∀ d ∈ done, path ≠ place ++ [d.1 ++ ".js"]) :
    (t.withScripts place done).content? path = t.content? path := by
  induction done generalizing t with
  | nil => rfl
  | cons d done ih =>
    rw [withScripts_cons, ih fun d hd => h d (List.mem_cons_of_mem _ hd), content?_written,
      if_neg (h d List.mem_cons_self).symm]

theorem content?_withScripts (t : FileTree) (place : List String) {d : String × Script}
    (hnodup : (done.map Prod.fst).Nodup) (hd : d ∈ done) :
    (t.withScripts place done).content? (place ++ [d.1 ++ ".js"]) =
      some (.file d.2.source.toUTF8) := by
  induction done generalizing t with
  | nil => cases hd
  | cons first done ih =>
    rw [List.map_cons, List.nodup_cons] at hnodup
    rw [withScripts_cons]
    rcases List.mem_cons.mp hd with rfl | hd
    · rw [content?_withScripts_of_not_mem, content?_written, if_pos rfl]
      -- the scripts behind it have other names
      intro other hother hsame
      have hstem : d.1 = other.1 := by simpa using hsame
      exact hnodup.1 (hstem ▸ List.mem_map_of_mem hother)
    · exact ih _ hnodup.2 hd

theorem opens_withScripts {r : Registry} {date directory : String}
    (hopens : t.Opens directory place)
    (h : ∀ d ∈ done, t.attempt r date directory place d.1 = .ok d.2) :
    (t.withScripts place done).Opens directory place := by
  refine hopens.mono fun path hpath => ?_
  rwa [content?_withScripts_of_not_mem]
  rintro d hd rfl
  exact (of_attempt_eq_ok (h d hd)).2.2 hpath

end Scripts

section Batch

variable {r : Registry} {date directory : String} {place : List String}

theorem runOn_sceneFiles {t : FileTree} (hopens : t.Opens directory place) :
    (Filing.sceneFiles storage directory).runOn t =
      (.ok ((Filing.sceneNames (t.listing place)).map (Path.join directory)), t) := by
  have hlist : t.list directory = .ok (t.listing place) := by
    rw [list, hopens.located]
    simp only [bind, Except.bind, hopens.isDirectory]
  have hlisted : Filing.runOn (ExceptT.lift (storage.list directory)) t =
      (.ok (.ok (t.listing place)), t) := by
    rw [← hlist]
    rfl
  rw [Filing.sceneFiles, Filing.runOn_bind_ok hlisted]
  rfl

/-- The names of the scenes are those of a list of stems. -/
theorem exists_scenes {t : FileTree} (hnamed : t.WellNamed) (place : List String) :
    ∃ stems, Filing.sceneNames (t.listing place) = stems.map (· ++ ".xml") ∧
      t.Scenes place stems ∧ ∀ stem ∈ stems, Path.IsName (stem ++ ".xml") := by
  have hname : ∀ name, ⟨name, .file⟩ ∈ t.listing place → Path.IsName name := by
    intro name hmem
    obtain ⟨bytes, hcontent⟩ := mem_listing_file.mp hmem
    exact hnamed _ (content?_concat_eq_some.mp hcontent) name (by simp)
  have hscene (stem : String) : stem ++ ".xml" ∈ Filing.sceneNames (t.listing place) ↔
      stem ≠ "" ∧ ∃ bytes, t.content? (place ++ [stem ++ ".xml"]) = some (.file bytes) := by
    rw [Filing.mem_sceneNames, ← mem_listing_file, and_comm]
    refine and_congr_left fun hmem => (Path.hasExtension_iff (hname _ hmem)).trans ?_
    simp
  obtain ⟨stems, hstems⟩ : Filing.sceneNames (t.listing place) ∈
      Set.range (List.map fun stem => stem ++ ".xml") := by
    rw [Set.range_list_map]
    intro name hmem
    obtain ⟨hlisted, hextension⟩ := Filing.mem_sceneNames.mp hmem
    obtain ⟨stem, -, rfl⟩ := (Path.hasExtension_iff (hname name hlisted)).mp hextension
    exact ⟨stem, rfl⟩
  have hmem (stem : String) : stem ∈ stems ↔
      stem ++ ".xml" ∈ Filing.sceneNames (t.listing place) := by
    rw [← hstems]
    simp
  refine ⟨stems, hstems.symm, ⟨?_, fun stem => (hmem stem).trans (hscene stem)⟩,
    fun stem hstem => ?_⟩
  · rw [hstems]
    exact Filing.sorted_sceneNames (nodup_listing t place)
  · exact hname _ (Filing.mem_sceneNames.mp ((hmem stem).mp hstem)).1

-- the scenes that are left keep their outcome, so each of them is told from the first tree
theorem runOn_compileAll (stems : List String) {t : FileTree} (hopens : t.Opens directory place)
    (hnames : ∀ stem ∈ stems, stem ≠ "" ∧ Path.IsName (stem ++ ".xml")) :
    ∃ (done : List (String × Script)) (rest : List String)
        (result : Except Diagnostic (List CompiledFile)),
      (Filing.compileAll storage r date
          (stems.map fun stem => Path.join directory (stem ++ ".xml"))).runOn t =
        (result, t.withScripts place done) ∧
      stems = done.map Prod.fst ++ rest ∧
      (∀ d ∈ done, t.attempt r date directory place d.1 = .ok d.2) ∧
      (rest = [] ∧ result = .ok (done.map (reported directory)) ∨
        ∃ stem more d, rest = stem :: more ∧
          t.attempt r date directory place stem = .error d ∧ result = .error d) := by
  induction stems generalizing t with
  | nil => exact ⟨[], [], _, rfl, rfl, by simp, .inl ⟨rfl, rfl⟩⟩
  | cons stem stems ih =>
    obtain ⟨hstem, hname⟩ := hnames stem List.mem_cons_self
    have hnames := fun stem hstem => hnames stem (List.mem_cons_of_mem _ hstem)
    cases hattempt : t.attempt r date directory place stem with
    | error d =>
      have hscene := attempting_error hopens hstem hname hattempt
      exact ⟨[], stem :: stems, .error d, Filing.compileAll_cons_error hscene, rfl, by simp,
        .inr ⟨stem, stems, d, rfl, hattempt, rfl⟩⟩
    | ok script =>
      have hscene := attempting_ok hopens hstem hname hattempt
      have hsame := attempt_written (stem, script) hattempt
      obtain ⟨done, rest, result, hrun, rfl, hdone, houtcome⟩ :=
        ih (opens_written (stem, script) hopens hattempt) hnames
      refine ⟨(stem, script) :: done, rest, result.map (reported directory (stem, script) :: ·),
        ?_, rfl, ?_, ?_⟩
      · refine (Filing.compileAll_cons_ok hscene).trans ?_
        rw [hrun]
        rfl
      · intro d hd
        rcases List.mem_cons.mp hd with rfl | hd
        · exact hattempt
        · rw [← hsame d.1]
          exact hdone d hd
      · rcases houtcome with ⟨rfl, rfl⟩ | ⟨bad, more, d, rfl, hbad, rfl⟩
        · exact .inl ⟨rfl, rfl⟩
        · refine .inr ⟨bad, more, d, rfl, ?_, rfl⟩
          rw [← hsame bad]
          exact hbad

/-- A batch in an existing directory. The scenes are its files with a stem before the extension, by
increasing name, and their scripts have other paths than they and one another. The batch writes the
scripts of the scenes before the first that fails, made from the scenes as they were, and changes
nothing else; it reports those files, or that failure. -/
theorem compileDirectory_stops_at_first_failure {t : FileTree} {directory : String}
    {place : List String} (hnamed : t.WellNamed) (hopens : t.Opens directory place) (r : Registry)
    (date : String) :
    ∃ (stems : List String) (done : List (String × Script)) (rest : List String)
        (result : Except Diagnostic (List CompiledFile)) (t' : FileTree),
      (Filing.compileDirectory storage r directory date).runOn t = (result, t') ∧
      t.Scenes place stems ∧
      (stems.map fun stem => Path.scriptFor (Path.join directory (stem ++ ".xml"))).Nodup ∧
      (∀ stem ∈ stems, ∀ other ∈ stems,
        Path.scriptFor (Path.join directory (stem ++ ".xml")) ≠
          Path.join directory (other ++ ".xml")) ∧
      stems = done.map Prod.fst ++ rest ∧
      (∀ d ∈ done, t.attempt r date directory place d.1 = .ok d.2 ∧
        Path.scriptFor (Path.join directory (d.1 ++ ".xml")) = Path.join directory (d.1 ++ ".js") ∧
        t'.locate (Path.join directory (d.1 ++ ".js")) = .ok (place ++ [d.1 ++ ".js"]) ∧
        t'.content? (place ++ [d.1 ++ ".js"]) = some (.file d.2.source.toUTF8)) ∧
      (∀ path, (∀ d ∈ done, path ≠ place ++ [d.1 ++ ".js"]) → t'.content? path = t.content? path) ∧
      (rest = [] ∧ result = .ok (done.map (reported directory)) ∨
        ∃ stem more d, rest = stem :: more ∧
          t.attempt r date directory place stem = .error d ∧ result = .error d) := by
  obtain ⟨stems, hlisted, hscenes, hnames⟩ := exists_scenes hnamed place
  obtain ⟨done, rest, result, hrun, hstems, hdone, houtcome⟩ :=
    runOn_compileAll (r := r) stems hopens fun stem hstem =>
      ⟨((hscenes.mem_iff stem).mp hstem).1, hnames stem hstem⟩
  have hstem (stem : String) (h : stem ∈ stems) : stem ≠ "" := ((hscenes.mem_iff stem).mp h).1
  refine ⟨stems, done, rest, result, t.withScripts place done, ?_, hscenes, ?_, ?_, hstems, ?_, ?_,
    houtcome⟩
  · rw [Filing.compileDirectory, Filing.runOn_bind_ok (runOn_sceneFiles hopens),
      hlisted, List.map_map]
    exact hrun
  · refine hscenes.nodup.map_on fun stem h other hother hsame => ?_
    exact (Path.scriptFor_inj (hstem stem h) (hstem other hother) (hnames stem h)
      (hnames other hother)).mp hsame
  · exact fun stem h other hother =>
      Path.scriptFor_ne_scene (hstem stem h) (hnames stem h) (hnames other hother)
  · intro d hd
    have hmem : d.1 ∈ stems := hstems ▸ List.mem_append_left _ (List.mem_map_of_mem hd)
    have hslash := (hnames d.1 hmem).slash_not_mem
    have hnodup : (done.map Prod.fst).Nodup := (List.nodup_append.mp (hstems ▸ hscenes.nodup)).1
    obtain ⟨hfits, hdot, -⟩ := of_attempt_eq_ok (hdone d hd)
    have hscript : Path.scriptName d.1 = d.1 ++ ".js" := if_neg hdot
    have hfits := hfits.script hslash
    have houtput := Path.scriptFor_join directory (hstem d.1 hmem) hslash
    rw [hscript] at hfits houtput
    have hcontent := content?_withScripts t place hnodup hd
    exact ⟨hdone d hd, houtput, (opens_withScripts hopens hdone).locate_of_fits
      (Path.isName_script hslash) hfits hcontent, hcontent⟩
  · exact fun path hpath => content?_withScripts_of_not_mem hpath

end Batch

end FileTree

def Sample.giving : Registry := ⟨"cm", .ofList [⟨"give", "$.gainMeso($x)", none, .plain⟩]⟩

/-- A directory with two scenes, one of which does not compile, and a note. What has the extension
alone for a name is no scene. -/
def Sample.shelf : FileTree :=
  [⟨["d"], .directory⟩, ⟨["d", ".xml"], .file "".toUTF8⟩,
    ⟨["d", "1.xml"], .file "<scene><give x='5'/></scene>".toUTF8⟩,
    ⟨["d", "2.xml"], .file "<scene><take x='5'/></scene>".toUTF8⟩,
    ⟨["d", "note"], .file "take".toUTF8⟩].foldl FileTree.enter .empty

/-- The batch in that directory fails, and the note stays. -/
theorem FileTree.shelf_stops_at_first_failure :
    ∃ d t', (Filing.compileDirectory storage Sample.giving "d/." "today").runOn Sample.shelf =
        (.error d, t') ∧
      t'.content? ["d", "note"] = some (.file "take".toUTF8) := by
  have hnamed : Sample.shelf.WellNamed := by decide +kernel
  have hopens : Sample.shelf.Opens "d/." ["d"] := ⟨by decide +kernel, by decide +kernel⟩
  obtain ⟨stems, done, rest, result, t', hrun, hscenes, -, -, hstems, hdone, hkept, houtcome⟩ :=
    compileDirectory_stops_at_first_failure hnamed hopens Sample.giving "today"
  have hsecond : "2" ∈ stems := (hscenes.mem_iff "2").mpr
    ⟨by decide, "<scene><take x='5'/></scene>".toUTF8, by decide +kernel⟩
  have hnote : t'.content? ["d", "note"] = some (.file "take".toUTF8) := by
    rw [hkept]
    · decide +kernel
    · intro d _ hsame
      have hname : "note" = d.1 ++ ".js" := by simpa using hsame
      have hlast := congrArg (·.toList.getLast?) hname
      simp at hlast
  rcases houtcome with ⟨rfl, -⟩ | ⟨stem, more, d, -, -, rfl⟩
  · rw [hstems, List.append_nil] at hsecond
    obtain ⟨d, hd, hstem⟩ := List.mem_map.mp hsecond
    have hcompiled := (hdone d hd).1
    have hrefused :
        (Sample.shelf.attempt Sample.giving "today" "d/." ["d"] "2").toOption.isNone := by
      decide +kernel
    rw [hstem] at hcompiled
    rw [hcompiled] at hrefused
    cases hrefused
  · exact ⟨d, t', hrun, hnote⟩

end SceneDispatch

import SceneDispatch.Proofs.Command.Outcome
/-!
Batches beside runs on single scenes. A batch loads its configuration once and takes its scenes
from a listing, where a run on a single scene loads the configuration anew and looks the scene up.
Main statement: a batch leaves what the runs on its scenes leave, one after another up to the first
that fails, and reports what they report. Only a scene whose path is too long to be looked up fails
for another reason.
-/
namespace SceneDispatch

namespace FileTree

variable {t t' : FileTree} {path : String} {place : List String}

/-- Both paths lead to one thing. -/
def SameFile (t : FileTree) (path path' : String) : Prop :=
  ∃ place, t.locate path = .ok place ∧ t.locate path' = .ok place

/-- No access to the path gets as far as a directory. -/
def Unreachable (t : FileTree) (path : String) : Prop :=
  t.kind path = .error .nameTooLong ∨ t.kind path = .error .nameBroken

theorem Unreachable.kind_ne_file (h : t.Unreachable path) : t.kind path ≠ .ok .file := by
  intro hfile
  rcases h with hkind | hkind <;> rw [hkind] at hfile <;> cases hfile

section Scenes

variable {directory name config : String}

/-- What a directory lists is there, if its path can be followed. -/
theorem Opens.kind_or {bytes : ByteArray} (h : t.Opens directory place) (hname : Path.IsName name)
    (hcontent : t.content? (place ++ [name]) = some (.file bytes)) :
    t.kind (Path.join directory name) = .ok .file ∨
      t.Unreachable (Path.join directory name) ∧
        ∃ fault, t.read (Path.join directory name) = .error fault := by
  have hfind := h.find_join hname
  have hfault : ∀ fault, (fault = .nameTooLong ∨ fault = .nameBroken) →
      t.find (Path.join directory name) = .error fault →
      t.Unreachable (Path.join directory name) ∧
        ∃ fault, t.read (Path.join directory name) = .error fault := by
    intro fault hcause hfound
    rw [Unreachable, FileTree.kind, read, hfound]
    rcases hcause with rfl | rfl
    · exact ⟨.inl rfl, _, rfl⟩
    · exact ⟨.inr rfl, _, rfl⟩
  unfold checkPath at hfind
  split at hfind
  · exact .inr (hfault _ (.inr rfl) hfind)
  · split at hfind
    · exact .inr (hfault _ (.inl rfl) hfind)
    · rw [lookup] at hfind
      split at hfind
      · exact .inr (hfault _ (.inl rfl) hfind)
      · rw [hcontent] at hfind
        exact .inl (kind_of_find hfind)

/-- A tree in which a batch can go on with the scenes of these stems: they are in the directory,
and the configuration is loaded from a place to which none of their scripts can go. -/
structure Stocked (t : FileTree) (r : Registry) (config directory : String)
    (place home stems : List String) : Prop where
  opens : t.Opens directory place
  listed : ∀ stem ∈ stems, ∃ bytes, t.content? (place ++ [stem ++ ".xml"]) = some (.file bytes)
  located : t.locate config = .ok home
  isFile : t.kind config = .ok .file
  loaded : t.configuration config = .ok r
  apart : ∀ stem ∈ stems, Fits directory (stem ++ ".xml") → stem ≠ "." →
    home ≠ place ++ [stem ++ ".js"]

variable {r : Registry} {date stem : String} {script : Script} {home stems : List String}

theorem kind_written (hopens : t.Opens directory place)
    (h : t.attempt r date directory place stem = .ok script) {other : String}
    (hname : Path.IsName (other ++ ".xml")) :
    (t.enter (scriptEntry place (stem, script))).kind (Path.join directory (other ++ ".xml")) =
      t.kind (Path.join directory (other ++ ".xml")) := by
  rw [FileTree.kind, FileTree.kind, hopens.find_join hname,
    (opens_written (stem, script) hopens h).find_join hname, lookup, lookup, scene_written]

/-- When the script of the first scene is written, the batch can go on. -/
theorem Stocked.written (h : t.Stocked r config directory place home (stem :: stems))
    (hscript : t.attempt r date directory place stem = .ok script) :
    (t.enter (scriptEntry place (stem, script))).Stocked r config directory place home stems := by
  have hkept : ∀ path, t.content? path = some .directory →
      (t.enter (scriptEntry place (stem, script))).content? path = some .directory :=
    fun path => (isDirectory_written (stem, script) hscript path).mpr
  have hhome : (t.enter (scriptEntry place (stem, script))).content? home = t.content? home := by
    obtain ⟨hfits, hdot, -⟩ := of_attempt_eq_ok hscript
    rw [content?_written, if_neg (h.apart stem List.mem_cons_self hfits hdot).symm]
  obtain ⟨hlocated, hfound⟩ := find_kept hkept hhome h.located
  refine ⟨opens_written (stem, script) h.opens hscript, fun other hother => ?_, hlocated, ?_, ?_,
    fun other hother => h.apart other (List.mem_cons_of_mem _ hother)⟩
  · rw [scene_written]
    exact h.listed other (List.mem_cons_of_mem _ hother)
  · rw [FileTree.kind, hfound]
    exact h.isFile
  · rw [configuration_congr hfound]
    exact h.loaded

end Scenes

end FileTree

namespace Request

open FileTree

/-- Runs the program with one command line after another, up to the first run that does not exit
with 0. -/
def runEach (s : Setting) : List (List String) → FileTree → List Report × FileTree
  | [], t => ([], t)
  | line :: lines, t =>
    if (runOn s line t).1.exitCode = 0 then
      ((runOn s line t).1 :: (runEach s lines (runOn s line t).2).1,
        (runEach s lines (runOn s line t).2).2)
    else ([(runOn s line t).1], (runOn s line t).2)

/-- How a batch that fails at a scene goes with the run on the scene, given the outcome of loading
the configuration. Both name the same code if the path of the scene can be followed. If it cannot,
the run does not find the scene, and the batch fails at the configuration if it can and else at
reading the scene. -/
structure FailsAlike (t : FileTree) (loading : Except Diagnostic Registry) (scene : String)
    (report last : Report) : Prop where
  reached : ¬ t.Unreachable scene → report.marked "ERROR_CODE:" = last.marked "ERROR_CODE:"
  missed : t.Unreachable scene →
    last.marked "ERROR_CODE:" = ["ERROR_CODE:CLI_SOURCE_NOT_FOUND"]
  unloaded : t.Unreachable scene → ∀ d, loading = .error d → report = .ofDiagnostic d
  unread : t.Unreachable scene → ∀ r, loading = .ok r →
    report.marked "ERROR_CODE:" = ["ERROR_CODE:API_SOURCE_READ"]

section FailsAlike

variable {t t' : FileTree} {loading : Except Diagnostic Registry} {scene : String}
  {d d' : Diagnostic}

theorem FailsAlike.congr {report last : Report} (h : FailsAlike t' loading scene report last)
    (hkept : t'.kind scene = t.kind scene) : FailsAlike t loading scene report last := by
  have hiff : t.Unreachable scene ↔ t'.Unreachable scene := by
    rw [Unreachable, Unreachable, hkept]
  exact ⟨fun hreached => h.reached (mt hiff.mpr hreached), fun hu => h.missed (hiff.mp hu),
    fun hu => h.unloaded (hiff.mp hu), fun hu => h.unread (hiff.mp hu)⟩

theorem failsAlike_of_reached (hreached : ¬ t.Unreachable scene) (hcode : d.code = d'.code) :
    FailsAlike t loading scene (.ofDiagnostic d) (.ofDiagnostic d') := by
  refine ⟨fun _ => ?_, fun hu => absurd hu hreached, fun hu => absurd hu hreached,
    fun hu => absurd hu hreached⟩
  rw [Report.codes_ofDiagnostic, Report.codes_ofDiagnostic, hcode]

theorem marked_missing (label path : String) :
    (Report.ofDiagnostic (missing label path)).marked "ERROR_CODE:" =
      ["ERROR_CODE:CLI_SOURCE_NOT_FOUND"] := by
  rw [Report.codes_ofDiagnostic]
  rfl

theorem failsAlike_unread {r : Registry} {path : String} (hunreachable : t.Unreachable scene)
    (hcode : d.code = "API_SOURCE_READ") :
    FailsAlike t (.ok r) scene (.ofDiagnostic d) (.ofDiagnostic (missing "input" path)) := by
  refine ⟨fun hreached => absurd hunreachable hreached, fun _ => marked_missing _ _,
    fun _ _ hloading => (nomatch hloading), fun _ _ _ => ?_⟩
  rw [Report.codes_ofDiagnostic, hcode]
  rfl

theorem failsAlike_unloaded {label path : String}
    (hsame : ¬ t.Unreachable scene → d = missing label path) :
    FailsAlike t (.error d) scene (.ofDiagnostic d) (.ofDiagnostic (missing label path)) := by
  refine ⟨fun hreached => ?_, fun _ => marked_missing _ _, fun _ e hloading => ?_,
    fun _ _ hloading => nomatch hloading⟩
  · rw [hsame hreached]
  · rw [Except.error.inj hloading]

end FailsAlike

/-- How the result of compiling scenes goes with the reports of runs on them. -/
inductive Matches (t : FileTree) (r : Registry) (scenes : List String) :
    Except Diagnostic (List CompiledFile) → List Report → Prop
  | done {files : List CompiledFile} (hcount : files.length = scenes.length) :
    Matches t r scenes (.ok files) (files.map .ofCompiled)
  | failed {files : List CompiledFile} {scene : String} {d d' : Diagnostic}
    (hscene : scenes[files.length]? = some scene)
    (hfails : FailsAlike t (.ok r) scene (.ofDiagnostic d) (.ofDiagnostic d')) :
    Matches t r scenes (.error d) (files.map .ofCompiled ++ [.ofDiagnostic d'])

section Simulation

variable {t t' : FileTree} {scene : String} {scenes : List String} {reports : List Report}
  {result : Except Diagnostic (List CompiledFile)} {r : Registry}

theorem Matches.cons (h : Matches t' r scenes result reports)
    (hkept : ∀ f ∈ scenes, t'.kind f = t.kind f) (file : CompiledFile) :
    Matches t r (scene :: scenes) (result.map (file :: ·)) (.ofCompiled file :: reports) := by
  cases h with
  | @done files hcount =>
    have hcount : (file :: files).length = (scene :: scenes).length := by simp [hcount]
    exact .done hcount
  | @failed files bad d d' hbad hfails =>
    have hsecond : (scene :: scenes)[(file :: files).length]? = some bad := by simpa using hbad
    exact .failed hsecond (hfails.congr (hkept bad (List.mem_of_getElem? hbad)))

variable {s : Setting} {config date : String} {lines : List (List String)} {line : List String}
  {report : Report}

theorem runEach_cons_ok (h : runOn s line t = (report, t')) (hexit : report.exitCode = 0) :
    runEach s (line :: lines) t =
      (report :: (runEach s lines t').1, (runEach s lines t').2) := by
  rw [runEach, h, if_pos hexit]

theorem runEach_cons_failed (h : runOn s line t = (report, t')) (hexit : report.exitCode ≠ 0) :
    runEach s (line :: lines) t = ([report], t') := by
  rw [runEach, h, if_neg hexit]

section Steps

variable {directory : String} {place home : List String}

/-- One step of a batch beside the run on its scene. Either both write the script, or both fail. -/
theorem run_scene {stem : String} {stems : List String}
    (h : t.Stocked r (Path.join s.directory config) directory place home (stem :: stems))
    (hstem : stem ≠ "") (hname : Path.IsName (stem ++ ".xml"))
    (habsolute : Path.join s.directory (Path.join directory (stem ++ ".xml")) =
      Path.join directory (stem ++ ".xml"))
    (hparse : parse line =
      .ok (.compile config (Path.join directory (stem ++ ".xml")) none (some date))) :
    (∃ script file, t.attempt r date directory place stem = .ok script ∧
      (Filing.attempting r date (Path.join directory (stem ++ ".xml"))).runOn t =
        (.ok file, t.enter (scriptEntry place (stem, script))) ∧
      runOn s line t = (.ofCompiled file, t.enter (scriptEntry place (stem, script)))) ∨
    ∃ d d' t', (Filing.attempting r date (Path.join directory (stem ++ ".xml"))).runOn t =
        (.error d, t') ∧
      runOn s line t = (.ofDiagnostic d', t') ∧
      FailsAlike t (.ok r) (Path.join directory (stem ++ ".xml")) (.ofDiagnostic d)
        (.ofDiagnostic d') := by
  obtain ⟨bytes, hlisted⟩ := h.listed stem List.mem_cons_self
  rcases h.opens.kind_or hname hlisted with hfile | ⟨hunreachable, fault, hread⟩
  · obtain ⟨result, t', hcompile⟩ : ∃ result t', (Filing.compileFile storage r
        (Path.join directory (stem ++ ".xml")) none date).runOn t = (result, t') := ⟨_, _, rfl⟩
    have hbatch := Filing.runOn_catch hcompile
      (Filing.inBatch (Path.join directory (stem ++ ".xml")))
    have hreached : ¬ t.Unreachable (Path.join directory (stem ++ ".xml")) :=
      fun hunreachable => hunreachable.kind_ne_file hfile
    rw [← habsolute] at hfile hcompile
    have hrun := runOn_eq hparse (runCompile_loaded h.isFile hfile h.loaded hcompile)
    cases result with
    | error d =>
      exact .inr ⟨_, d, t', hbatch, hrun, failsAlike_of_reached hreached (code_inBatch _ d)⟩
    | ok file =>
      have hbatch : (Filing.attempting r date (Path.join directory (stem ++ ".xml"))).runOn t =
          (.ok file, t') := hbatch
      have hscene := runOn_scene r date h.opens hstem hname
      rw [hbatch] at hscene
      cases hattempt : t.attempt r date directory place stem with
      | error d =>
        rw [hattempt] at hscene
        cases (Prod.mk.inj hscene).1
      | ok script =>
        rw [hattempt] at hscene
        obtain rfl := (Prod.mk.inj hscene).2
        exact .inl ⟨script, file, rfl, hbatch, hrun⟩
  · have hbatch := Filing.runOn_catch (Filing.compileFile_unread r date hread)
      (Filing.inBatch (Path.join directory (stem ++ ".xml")))
    have hmissing := hunreachable.kind_ne_file
    rw [← habsolute] at hmissing
    have hrun := runOn_eq hparse (runCompile_missing h.isFile none (some date) hmissing)
    exact .inr ⟨_, _, t, hbatch, hrun, failsAlike_unread hunreachable (code_inBatch _ _)⟩

-- while the scenes are compiled, the configuration and the scenes that are left stay as they are
theorem runEach_scenes {single : String → List String} (stems : List String) {t : FileTree}
    (h : t.Stocked r (Path.join s.directory config) directory place home stems)
    (hnames : ∀ stem ∈ stems, stem ≠ "" ∧ Path.IsName (stem ++ ".xml"))
    (hsingle : ∀ stem ∈ stems, Path.join s.directory (Path.join directory (stem ++ ".xml")) =
        Path.join directory (stem ++ ".xml") ∧
      parse (single (Path.join directory (stem ++ ".xml"))) =
        .ok (.compile config (Path.join directory (stem ++ ".xml")) none (some date))) :
    ∃ result reports t',
      (Filing.compileAll storage r date
        (stems.map fun stem => Path.join directory (stem ++ ".xml"))).runOn t = (result, t') ∧
      runEach s (stems.map fun stem => single (Path.join directory (stem ++ ".xml"))) t =
        (reports, t') ∧
      Matches t r (stems.map fun stem => Path.join directory (stem ++ ".xml")) result reports := by
  induction stems generalizing t with
  | nil =>
    have hcount : ([] : List CompiledFile).length = ([] : List String).length := rfl
    exact ⟨.ok [], [], t, rfl, rfl, .done hcount⟩
  | cons stem stems ih =>
    obtain ⟨hstem, hname⟩ := hnames stem List.mem_cons_self
    obtain ⟨habsolute, hparse⟩ := hsingle stem List.mem_cons_self
    have hnames := fun stem hstem => hnames stem (List.mem_cons_of_mem _ hstem)
    have hsingle := fun stem hstem => hsingle stem (List.mem_cons_of_mem _ hstem)
    rw [List.map_cons, List.map_cons]
    rcases run_scene h hstem hname habsolute hparse with
      ⟨script, file, hattempt, hbatch, hrun⟩ | ⟨d, d', t', hbatch, hrun, hfails⟩
    · obtain ⟨result, reports, t', hall, heach, hmatches⟩ := ih (h.written hattempt) hnames hsingle
      refine ⟨result.map (file :: ·), .ofCompiled file :: reports, t', ?_, ?_,
        hmatches.cons (fun f hf => ?_) file⟩
      · rw [Filing.compileAll_cons_ok hbatch, hall]
      · rw [runEach_cons_ok hrun rfl, heach]
      · obtain ⟨other, hother, rfl⟩ := List.mem_map.mp hf
        exact kind_written h.opens hattempt (hnames other hother).2
    · have hfirst : (stem :: stems |>.map fun stem => Path.join directory (stem ++ ".xml"))[
          ([] : List CompiledFile).length]? = some (Path.join directory (stem ++ ".xml")) := rfl
      exact ⟨.error d, [.ofDiagnostic d'], t', Filing.compileAll_cons_error hbatch,
        runEach_cons_failed hrun Nat.one_ne_zero, .failed hfirst hfails⟩

end Steps

end Simulation

/-- How the report of a batch goes with those of the runs on its scenes. It has their outputs in
order and their number if all of them are done; otherwise it fails as the last of them does. -/
structure Agrees (t : FileTree) (config : String) (scenes : List String) (report : Report)
    (reports : List Report) : Prop where
  exit_iff : report.exitCode = 0 ↔ ∀ x ∈ reports, x.exitCode = 0
  done : report.exitCode = 0 → reports.length = scenes.length ∧
    report.marked "OUTPUT:" = reports.flatMap (Report.marked "OUTPUT:") ∧
    report.marked "COMPILED:" = [s!"COMPILED:{reports.length}"]
  failed : report.exitCode ≠ 0 → report.exitCode = 1 ∧
    ∃ before last scene, reports = before ++ [last] ∧ (∀ x ∈ before, x.exitCode = 0) ∧
      last.exitCode ≠ 0 ∧ scenes[before.length]? = some scene ∧
      FailsAlike t (configured t config) scene report last

section Agreement

variable {t : FileTree} {s : Setting} {config date scene : String} {scenes : List String}

theorem exitCode_ofCompiled {files : List CompiledFile} :
    ∀ x ∈ files.map Report.ofCompiled, x.exitCode = 0 := by
  intro x hx
  obtain ⟨file, -, rfl⟩ := List.mem_map.mp hx
  rfl

theorem agrees_of_failed {files : List CompiledFile} {d d' : Diagnostic}
    (hscene : scenes[files.length]? = some scene)
    (hfails : FailsAlike t (configured t config) scene (.ofDiagnostic d) (.ofDiagnostic d')) :
    Agrees t config scenes (.ofDiagnostic d)
      (files.map .ofCompiled ++ [.ofDiagnostic d']) where
  exit_iff := by simp [Report.ofDiagnostic]
  done hexit := absurd hexit Nat.one_ne_zero
  failed _ := ⟨rfl, _, _, scene, rfl, exitCode_ofCompiled, Nat.one_ne_zero,
    by simpa using hscene, hfails⟩

theorem Matches.agrees {r : Registry} {result : Except Diagnostic (List CompiledFile)}
    {reports : List Report} (h : Matches t r scenes result reports)
    (hload : configured t config = .ok r) :
    Agrees t config scenes (.ofResult (result.map .ofBatch)) reports := by
  cases h with
  | @failed files scene d d' hscene hfails =>
    rw [← hload] at hfails
    exact agrees_of_failed hscene hfails
  | @done files hcount =>
    refine ⟨⟨fun _ => exitCode_ofCompiled, fun _ => rfl⟩, fun _ => ⟨by simpa using hcount, ?_, ?_⟩,
      fun hexit => absurd rfl hexit⟩
    · rw [List.flatMap_map]
      simp only [Report.outputs_ofCompiled]
      rw [← List.map_eq_flatMap]
      exact Report.outputs_ofBatch files
    · rw [List.length_map]
      exact Report.count_ofBatch files

/-- A batch that does not come to its scenes, beside a run that fails on the first of them. -/
theorem agrees_of_first {d d' : Diagnostic} {arguments line : List String}
    {lines : List (List String)} (hbatch : runOn s arguments t = (.ofDiagnostic d, t))
    (hrun : runOn s line t = (.ofDiagnostic d', t))
    (hfails : FailsAlike t (configured t config) scene (.ofDiagnostic d) (.ofDiagnostic d')) :
    ∃ report reports t', runOn s arguments t = (report, t') ∧
      runEach s (line :: lines) t = (reports, t') ∧
      Agrees t config (scene :: scenes) report reports := by
  refine ⟨_, [.ofDiagnostic d'], t, hbatch, runEach_cons_failed hrun Nat.one_ne_zero, ?_⟩
  have hfirst : (scene :: scenes)[([] : List CompiledFile).length]? = some scene := rfl
  exact agrees_of_failed hfirst hfails

/-- With a configuration that can be loaded, the batch can begin. -/
theorem stocked_of_loaded {r : Registry} {path : String} {place stems : List String}
    (hopens : t.Opens path place) (hscenes : t.Scenes place stems)
    (hnames : ∀ stem ∈ stems, Path.IsName (stem ++ ".xml"))
    (hfile : t.kind config = .ok .file) (hload : t.configuration config = .ok r)
    (hconfig : ∀ stem ∈ stems,
      ¬ t.SameFile config (Path.scriptFor (Path.join path (stem ++ ".xml")))) :
    ∃ home, t.Stocked r config path place home stems := by
  obtain ⟨home, content, hlocated, hcontent, -⟩ := exists_of_kind hfile
  refine ⟨home, hopens, fun stem hstem => ((hscenes.mem_iff stem).mp hstem).2,
    hlocated, hfile, hload,
    fun stem hstem hfits hdot hsame => hconfig stem hstem ⟨home, hlocated, ?_⟩⟩
  have hslash := (hnames stem hstem).slash_not_mem
  have hscript : Path.scriptName stem = stem ++ ".js" := if_neg hdot
  have hfits := hfits.script hslash
  rw [hscript] at hfits
  rw [hsame] at hcontent ⊢
  rw [Path.scriptFor_join path ((hscenes.mem_iff stem).mp hstem).1 hslash, hscript]
  exact hopens.locate_of_fits (Path.isName_script hslash) hfits hcontent

/-- A batch leaves the tree that the runs on its scenes leave, one after another up to the first
that fails, and its report agrees with theirs. -/
theorem batch_agrees_with_runs {t : FileTree} {s : Setting} {config directory date : String}
    {scenes arguments : List String} {single : String → List String}
    (hroot : Path.IsAbsolute s.directory) (hnamed : t.WellNamed)
    (hdirectory : t.kind (Path.join s.directory directory) = .ok .directory)
    (hscenes : (Filing.sceneFiles storage (Path.join s.directory directory)).runOn t =
      (.ok scenes, t))
    (hsome : scenes ≠ [])
    (hconfig : ∀ f ∈ scenes, ¬ t.SameFile (Path.join s.directory config) (Path.scriptFor f))
    (hbatch : parse arguments = .ok (.batch config directory (some date)))
    (hsingle : ∀ f ∈ scenes, parse (single f) = .ok (.compile config f none (some date))) :
    ∃ report reports t', runOn s arguments t = (report, t') ∧
      runEach s (scenes.map single) t = (reports, t') ∧
      Agrees t (Path.join s.directory config) scenes report reports := by
  obtain ⟨place, hopens⟩ := exists_opens hdirectory
  obtain ⟨stems, hlisted, hstems, hnames⟩ := exists_scenes hnamed place
  obtain rfl : scenes = stems.map fun stem =>
      Path.join (Path.join s.directory directory) (stem ++ ".xml") := by
    rw [runOn_sceneFiles hopens, hlisted, List.map_map] at hscenes
    exact (Except.ok.inj (Prod.mk.inj hscenes).1).symm
  have habsolute : ∀ stem, Path.join s.directory
      (Path.join (Path.join s.directory directory) (stem ++ ".xml")) =
        Path.join (Path.join s.directory directory) (stem ++ ".xml") :=
    fun stem => Path.join_of_isAbsolute _ ((hroot.join _).join _)
  simp only [List.forall_mem_map] at hconfig hsingle
  rw [List.map_map]
  obtain ⟨stem, rest, rfl⟩ := List.exists_cons_of_ne_nil (mt (congrArg (List.map _)) hsome)
  by_cases hfile : t.kind (Path.join s.directory config) = .ok .file
  · cases hload : t.configuration (Path.join s.directory config) with
    | ok r =>
      obtain ⟨home, hstocked⟩ := stocked_of_loaded hopens hstems hnames hfile hload hconfig
      obtain ⟨result, reports, t', hall, heach, hmatches⟩ := runEach_scenes (stem :: rest) hstocked
        (fun stem hstem => ⟨((hstems.mem_iff stem).mp hstem).1, hnames stem hstem⟩)
        fun stem hstem => ⟨habsolute stem, hsingle stem hstem⟩
      exact ⟨_, reports, t', runOn_eq hbatch
        (runBatch_loaded hfile hdirectory hscenes hsome hload hall), heach,
        hmatches.agrees ((configured_of_file hfile).trans hload)⟩
    | error d =>
      have hrun := runOn_eq hbatch
        (runBatch_unloaded hfile hdirectory hscenes hsome (some date) hload)
      have hloading := (configured_of_file hfile).trans hload
      obtain ⟨bytes, hcontent⟩ := ((hstems.mem_iff stem).mp List.mem_cons_self).2
      rcases hopens.kind_or (hnames stem List.mem_cons_self) hcontent with hinput | ⟨hinput, -⟩
      · have hreached : ¬ t.Unreachable (Path.join (Path.join s.directory directory)
            (stem ++ ".xml")) := fun hunreachable => hunreachable.kind_ne_file hinput
        rw [← habsolute stem] at hinput
        have hfirst := runOn_eq (hsingle stem List.mem_cons_self)
          (runCompile_unloaded hfile hinput none (some date) hload)
        exact agrees_of_first hrun hfirst (failsAlike_of_reached hreached rfl)
      · have hmissing := hinput.kind_ne_file
        rw [← habsolute stem] at hmissing
        have hfirst := runOn_eq (hsingle stem List.mem_cons_self)
          (runCompile_missing hfile none (some date) hmissing)
        exact agrees_of_first hrun hfirst (hloading ▸ failsAlike_unloaded (absurd hinput))
  · have hrun := runOn_eq hbatch (runBatch_unconfigured directory (some date) hfile)
    have hfirst := runOn_eq (hsingle stem List.mem_cons_self)
      (runCompile_unconfigured none (some date) hfile)
    exact agrees_of_first hrun hfirst
      (configured_of_not_file hfile ▸ failsAlike_unloaded fun _ => rfl)

end Agreement

end Request

/-- A configuration, and a directory with a scene that compiles and one that does not. -/
def Sample.desk : FileTree :=
  [⟨["c"], .file "<f><featureDefinition name='give' js='$.gainMeso($x)'/></f>".toUTF8⟩,
    ⟨["d"], .directory⟩, ⟨["d", "1.xml"], .file "<scene><give x='5'/></scene>".toUTF8⟩,
    ⟨["d", "2.xml"], .file "<scene><take x='5'/></scene>".toUTF8⟩].foldl FileTree.enter .empty

namespace Request

open FileTree

theorem sceneNames_desk :
    Filing.sceneNames (Sample.desk.listing ["d"]) = ["1", "2"].map (· ++ ".xml") := by
  rw [Filing.sceneNames, List.mergeSort_of_pairwise (by decide +kernel)]
  decide +kernel

theorem desk_batch_agrees_with_runs :
    ∃ report reports t',
      runOn ⟨"/", "today"⟩ ["batch", "--config", "c", "--dir", "d", "--header-date", "2000-01-01"]
        Sample.desk = (report, t') ∧
      runEach ⟨"/", "today"⟩ (["/d/1.xml", "/d/2.xml"].map fun f =>
        ["compile", "--config", "c", "--input", f, "--header-date", "2000-01-01"]) Sample.desk =
          (reports, t') ∧
      report.exitCode = 1 ∧
      Agrees Sample.desk (Path.join "/" "c") ["/d/1.xml", "/d/2.xml"] report reports := by
  have hdirectory : Sample.desk.kind (Path.join "/" "d") = .ok .directory := by decide +kernel
  have hopens : Sample.desk.Opens (Path.join "/" "d") ["d"] :=
    ⟨by decide +kernel, by decide +kernel⟩
  have hscenes : (Filing.sceneFiles storage (Path.join "/" "d")).runOn Sample.desk =
      (.ok ["/d/1.xml", "/d/2.xml"], Sample.desk) := by
    rw [runOn_sceneFiles hopens, sceneNames_desk]
    decide +kernel
  have hconfig : ∀ f ∈ ["/d/1.xml", "/d/2.xml"],
      ¬ Sample.desk.SameFile (Path.join "/" "c") (Path.scriptFor f) := by
    rintro f hf ⟨place, -, hscript⟩
    have hmissing : ∀ f ∈ ["/d/1.xml", "/d/2.xml"],
        (Sample.desk.locate (Path.scriptFor f)).toOption = none := by decide +kernel
    have hnone := hmissing f hf
    rw [hscript] at hnone
    cases hnone
  have hhyphen : ∀ f ∈ ["/d/1.xml", "/d/2.xml"], isHyphenated f = false := by decide
  have hbatch : parse ["batch", "--config", "c", "--dir", "d", "--header-date", "2000-01-01"] =
      .ok (.batch "c" "d" (some "2000-01-01")) :=
    parse_batch (by decide) (by decide) (by decide)
  have hroot : Path.IsAbsolute (Setting.mk "/" "today").directory := by decide
  have hnamed : Sample.desk.WellNamed := by decide +kernel
  obtain ⟨report, reports, t', hrun, heach, hagrees⟩ :=
    batch_agrees_with_runs hroot hnamed hdirectory hscenes (by simp) hconfig hbatch fun f hf =>
      parse_compile (by decide) (hhyphen f hf) (by decide)
  have hcodes : (runEach ⟨"/", "today"⟩ (["/d/1.xml", "/d/2.xml"].map fun f =>
      ["compile", "--config", "c", "--input", f, "--header-date", "2000-01-01"])
      Sample.desk).1.map Report.exitCode = [0, 1] := by decide +kernel
  rw [heach] at hcodes
  have hfailed : report.exitCode ≠ 0 := by
    intro hzero
    obtain ⟨last, hlast, hone⟩ : ∃ last ∈ reports, last.exitCode = 1 :=
      List.mem_map.mp (hcodes ▸ by simp)
    exact Nat.one_ne_zero (hone.symm.trans (hagrees.exit_iff.mp hzero last hlast))
  exact ⟨report, reports, t', hrun, heach, (hagrees.failed hfailed).1, hagrees⟩

/-- A path to the directory of the desk, with dots at its end. -/
def dotted : Nat → String
  | 0 => "/d"
  | n + 1 => dotted n ++ "/."

theorem utf8ByteSize_dotted (n : Nat) : (dotted n).utf8ByteSize = 2 * n + 2 := by
  induction n with
  | zero => decide
  | succ n ih =>
    have hdot : "/.".utf8ByteSize = 2 := by decide
    rw [dotted, String.utf8ByteSize_append]
    omega

theorem getLast?_dotted (n : Nat) : (dotted n).toList.getLast? ≠ some '/' := by
  cases n with
  | zero => decide
  | succ n => simp [dotted]

theorem join_dotted (n : Nat) {name : String} (h : '/' ∉ name.toList) :
    Path.join (dotted n) name = dotted n ++ "/" ++ name := by
  apply String.toList_inj.mp
  rw [Path.toList_join _ h, Path.before, if_neg (getLast?_dotted n)]
  simp

theorem clean_dotted (n : Nat) : '\x00' ∉ (dotted n).toList := by
  induction n with
  | zero => decide
  | succ n ih => simp [dotted, ih]

theorem checkPath_dotted (n : Nat) {name : String} (hslash : '/' ∉ name.toList)
    (hclean : '\x00' ∉ name.toList) :
    checkPath (Path.join (dotted n) name) =
      if Path.pathLimit < 2 * n + 3 + name.utf8ByteSize then .error .nameTooLong else .ok () := by
  have hbroken : '\x00' ∉ (Path.join (dotted n) name).toList := by
    rw [join_dotted n hslash]
    simp [clean_dotted, hclean]
  have hsize : (Path.join (dotted n) name).utf8ByteSize = 2 * n + 3 + name.utf8ByteSize := by
    have hslash : "/".utf8ByteSize = 1 := by decide
    rw [join_dotted n ‹_›, String.utf8ByteSize_append, String.utf8ByteSize_append,
      utf8ByteSize_dotted]
    omega
  rw [checkPath, if_neg hbroken, hsize]

theorem opens_dotted {t : FileTree} {place : List String} (h : t.Opens "/d" place) {n : Nat}
    (hfits : 2 * n + 2 ≤ Path.pathLimit) : t.Opens (dotted n) place := by
  induction n with
  | zero => exact h
  | succ n ih =>
    have hjoin : dotted (n + 1) = Path.join (dotted n) "." := by
      rw [join_dotted n (by decide), dotted, String.append_assoc]
      rfl
    have hsize : ".".utf8ByteSize = 1 := by decide
    rw [hjoin]
    refine (ih (by omega)).dot ?_
    rw [checkPath_dotted n (by decide) (by decide), if_neg (by omega)]

theorem isAbsolute_dotted (n : Nat) : Path.IsAbsolute (dotted n) := by
  induction n with
  | zero => decide
  | succ n ih =>
    rw [Path.IsAbsolute, List.isPrefixOf_iff_prefix] at ih ⊢
    rw [dotted, String.toList_append]
    exact ih.trans (List.prefix_append _ _)

/-- The scenes of the desk, by paths that are one byte too long. -/
def overlong : List String := ["1", "2"].map fun stem => Path.join (dotted 2044) (stem ++ ".xml")

theorem find_overlong {t : FileTree} {place : List String} (h : t.Opens (dotted 2044) place) :
    ∀ f ∈ overlong, t.find f = .error .nameTooLong := by
  have hnames : ∀ stem ∈ ["1", "2"], Path.IsName (stem ++ ".xml") ∧
      '\x00' ∉ (stem ++ ".xml").toList ∧
      Path.pathLimit < 2 * 2044 + 3 + (stem ++ ".xml").utf8ByteSize := by decide
  intro f hf
  obtain ⟨stem, hmem, rfl⟩ := List.mem_map.mp hf
  obtain ⟨hname, hclean, hlong⟩ := hnames stem hmem
  rw [h.find_join hname, checkPath_dotted 2044 hname.2.2.2 hclean, if_pos hlong]
  rfl

theorem overlong_script_ne {t : FileTree} {path : String}
    (h : t.Opens (dotted 2044) ["d"]) (hpath : t.locate path = .ok ["c"]) :
    ∀ f ∈ overlong, ¬ t.SameFile path (Path.scriptFor f) := by
  have hnames : ∀ stem ∈ ["1", "2"], stem ≠ "" ∧ '/' ∉ stem.toList ∧
      Path.IsName (Path.scriptName stem) := by decide
  rintro f hf ⟨target, htarget, hscript⟩
  obtain ⟨stem, hmem, rfl⟩ := List.mem_map.mp hf
  obtain ⟨hstem, hslash, hname⟩ := hnames stem hmem
  rw [Path.scriptFor_join _ hstem hslash] at hscript
  rw [hpath, h.eq_of_locate hname hscript] at htarget
  simp at htarget

/-- A batch does not come to look for its first scene before it reads it, and a run does. -/
theorem codes_of_overlong {t : FileTree} {s : Setting} {r : Registry}
    {config directory date scene : String} {scenes arguments line : List String}
    {lines : List (List String)} (hconfig : t.kind (Path.join s.directory config) = .ok .file)
    (hload : t.configuration (Path.join s.directory config) = .ok r)
    (hdirectory : t.kind (Path.join s.directory directory) = .ok .directory)
    (hscenes : (Filing.sceneFiles storage (Path.join s.directory directory)).runOn t =
      (.ok (scene :: scenes), t))
    (habsolute : Path.IsAbsolute scene) (hfind : t.find scene = .error .nameTooLong)
    (hbatch : parse arguments = .ok (.batch config directory (some date)))
    (hsingle : parse line = .ok (.compile config scene none (some date))) :
    ∃ report failed, runOn s arguments t = (report, t) ∧
      runEach s (line :: lines) t = ([failed], t) ∧
      report.marked "ERROR_CODE:" = ["ERROR_CODE:API_SOURCE_READ"] ∧
      failed.marked "ERROR_CODE:" = ["ERROR_CODE:CLI_SOURCE_NOT_FOUND"] := by
  have hread : t.read scene = .error .nameTooLong := by
    rw [FileTree.read, hfind]
    rfl
  have hmissing : t.kind (Path.join s.directory scene) ≠ .ok .file := by
    rw [Path.join_of_isAbsolute _ habsolute, FileTree.kind, hfind]
    simp [bind, Except.bind]
  have hfirst := Filing.runOn_catch (Filing.compileFile_unread r date hread) (Filing.inBatch scene)
  refine ⟨_, _, runOn_eq hbatch (runBatch_loaded hconfig hdirectory hscenes (List.cons_ne_nil _ _)
    hload (Filing.compileAll_cons_error hfirst)), runEach_cons_failed (runOn_eq hsingle
      (runCompile_missing hconfig none (some date) hmissing)) Nat.one_ne_zero, ?_, ?_⟩
  · rw [Except.map, Report.ofResult, Report.codes_ofDiagnostic, code_inBatch]
    rfl
  · exact marked_missing _ _

/-- The batch lists the scenes and cannot read them, where a run on the first does not find it. -/
theorem overlong_batch_differs :
    Sample.desk.kind (dotted 2044) = .ok .directory ∧
    (Filing.sceneFiles storage (dotted 2044)).runOn Sample.desk = (.ok overlong, Sample.desk) ∧
    (∀ f ∈ overlong, ¬ Sample.desk.SameFile "/c" (Path.scriptFor f)) ∧
    ∃ report failed,
      runOn ⟨"/", "today"⟩
        ["batch", "--config", "/c", "--dir", dotted 2044, "--header-date", "2000-01-01"]
        Sample.desk = (report, Sample.desk) ∧
      runEach ⟨"/", "today"⟩ (overlong.map fun f =>
        ["compile", "--config", "/c", "--input", f, "--header-date", "2000-01-01"])
        Sample.desk = ([failed], Sample.desk) ∧
      report.marked "ERROR_CODE:" = ["ERROR_CODE:API_SOURCE_READ"] ∧
      failed.marked "ERROR_CODE:" = ["ERROR_CODE:CLI_SOURCE_NOT_FOUND"] := by
  have hbase : Sample.desk.Opens "/d" ["d"] := ⟨by decide +kernel, by decide +kernel⟩
  have hopens : Sample.desk.Opens (dotted 2044) ["d"] := opens_dotted hbase (by decide)
  have hscenes : (Filing.sceneFiles storage (dotted 2044)).runOn Sample.desk =
      (.ok overlong, Sample.desk) := by
    rw [runOn_sceneFiles hopens, sceneNames_desk, List.map_map]
    rfl
  have hhome : Sample.desk.locate "/c" = .ok ["c"] := by decide +kernel
  refine ⟨hopens.kind_eq, hscenes, overlong_script_ne hopens hhome, ?_⟩
  have hconfig : Sample.desk.kind (Path.join "/" "/c") = .ok .file := by decide +kernel
  obtain ⟨r, hload⟩ : ∃ r, Sample.desk.configuration (Path.join "/" "/c") = .ok r := by
    have hsome : (Sample.desk.configuration (Path.join "/" "/c")).toOption.isSome = true := by
      decide +kernel
    cases hload : Sample.desk.configuration (Path.join "/" "/c") with
    | ok r => exact ⟨r, rfl⟩
    | error d => simp [hload, Except.toOption] at hsome
  have hroot : Path.join "/" (dotted 2044) = dotted 2044 :=
    Path.join_of_isAbsolute _ (isAbsolute_dotted _)
  have hdirectory := hopens.kind_eq
  rw [← hroot] at hdirectory hscenes
  have hscene : Path.IsAbsolute (Path.join (dotted 2044) ("1" ++ ".xml")) :=
    (isAbsolute_dotted _).join _
  have hfind := find_overlong hopens (Path.join (dotted 2044) ("1" ++ ".xml")) List.mem_cons_self
  exact codes_of_overlong hconfig hload hdirectory hscenes hscene hfind
    (parse_batch (by decide) (isHyphenated_of_isAbsolute (isAbsolute_dotted 2044)) (by decide))
    (parse_compile (by decide) (isHyphenated_of_isAbsolute hscene) (by decide))

end Request

end SceneDispatch

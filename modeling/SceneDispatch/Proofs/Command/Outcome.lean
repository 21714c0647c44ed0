import SceneDispatch.Command.Run
import SceneDispatch.Proofs.Files.Batch
/-!
What the program makes of its requests on a file tree. Each request is followed up to the step at
which it fails, or to the compilation of its scenes.
-/
namespace SceneDispatch

namespace FileTree

variable {t t' : FileTree} {path : String}

/-- What is loaded as the configuration, told from the tree. -/
def configuration (t : FileTree) (path : String) : Except Diagnostic Registry := do
  let source ← (t.read path).mapError fun fault =>
    ⟨"API_CONFIG_READ", path ++ ": " ++ fault.text, none⟩
  (Registry.ofSource source).mapError Fault.diagnostic

theorem configuration_congr (h : t'.find path = t.find path) :
    t'.configuration path = t.configuration path := by
  rw [configuration, configuration, read, read, h]

theorem runOn_loadConfiguration (t : FileTree) (path : String) :
    (Filing.loadConfiguration storage path).runOn t = (t.configuration path, t) := by
  unfold Filing.loadConfiguration configuration
  cases hread : t.read path with
  | error fault => exact Filing.runOn_bind_error (Filing.runOn_read_error _ hread) _
  | ok source =>
    rw [Filing.runOn_bind_ok (Filing.runOn_read_ok _ hread)]
    simp only [Except.mapError, bind, Except.bind]
    cases Registry.ofSource source <;> rfl

end FileTree

namespace Report

/-- The lines that begin with a mark. -/
def marked (mark : String) (report : Report) : List String :=
  report.lines.filter fun line => mark.toList.isPrefixOf line.toList

def ofResult : Except Diagnostic Report → Report
  | .ok report => report
  | .error d => ofDiagnostic d

theorem codes_ofDiagnostic (d : Diagnostic) :
    (ofDiagnostic d).marked "ERROR_CODE:" = ["ERROR_CODE:" ++ d.code] := by
  simp [marked, ofDiagnostic, List.filter, List.isPrefixOf]

theorem outputs_ofCompiled (file : CompiledFile) :
    (ofCompiled file).marked "OUTPUT:" = ["OUTPUT:" ++ file.output] := by
  simp [marked, ofCompiled, List.filter, List.isPrefixOf, toString]

theorem outputs_ofBatch (files : List CompiledFile) :
    (ofBatch files).marked "OUTPUT:" = files.map fun file => "OUTPUT:" ++ file.output := by
  have houtputs : ∀ line ∈ files.map fun file => "OUTPUT:" ++ file.output,
      "OUTPUT:".toList.isPrefixOf line.toList = true := by
    simp
  rw [marked, ofBatch, List.cons_append, List.filter_cons_of_neg (by decide), List.filter_append,
    List.filter_eq_self.mpr houtputs]
  simp [List.filter, List.isPrefixOf, toString]

theorem count_ofBatch (files : List CompiledFile) :
    (ofBatch files).marked "COMPILED:" = [s!"COMPILED:{files.length}"] := by
  have houtputs : ∀ line ∈ files.map fun file => "OUTPUT:" ++ file.output,
      ¬ "COMPILED:".toList.isPrefixOf line.toList = true := by
    simp
  rw [marked, ofBatch, List.cons_append, List.filter_cons_of_neg (by decide), List.filter_append,
    List.filter_eq_nil_iff.mpr houtputs]
  simp [List.filter, List.isPrefixOf, toString]

end Report

namespace Request

open FileTree

/-- The report of a run on a file tree, and the tree behind it. -/
def runOn (s : Setting) (arguments : List String) (t : FileTree) : Report × FileTree :=
  (run storage s arguments).run t

section Runs

variable {t t' : FileTree} {s : Setting} {arguments : List String} {config input date : String}

theorem runOn_eq {request : Request} {result : Except Diagnostic Report}
    (hparse : parse arguments = .ok request)
    (h : Filing.runOn (request.perform storage s) t = (result, t')) :
    runOn s arguments t = (Report.ofResult result, t') := by
  have hperform : ((request.perform storage s).run).run t = pure (result, t') := h
  unfold runOn run
  rw [hparse]
  simp only [StateT.run_bind, hperform, pure_bind]
  cases result <;> rfl

theorem requireFile_ok {raw : String} (label : String)
    (h : t.kind (Path.join s.directory raw) = .ok .file) :
    (requireFile storage s raw label).runOn t = (.ok (Path.join s.directory raw), t) := by
  have hkind : Filing.runOn (ExceptT.lift (storage.kind (Path.join s.directory raw))) t =
      (.ok (.ok .file), t) := by
    rw [← h]
    rfl
  rw [requireFile, Filing.runOn_bind_ok hkind]
  rfl

/-- The complaint about a file that is not there. -/
def missing (label path : String) : Diagnostic :=
  .plain "CLI_SOURCE_NOT_FOUND" s!"{label} does not exist: {path}"

/-- What a request takes for its configuration, or why it has none, told from the tree. -/
def configured (t : FileTree) (path : String) : Except Diagnostic Registry :=
  match t.kind path with
  | .ok .file => t.configuration path
  | _ => .error (missing "config" path)

theorem configured_of_file {path : String} (h : t.kind path = .ok .file) :
    configured t path = t.configuration path := by
  rw [configured, h]

theorem configured_of_not_file {path : String} (h : t.kind path ≠ .ok .file) :
    configured t path = .error (missing "config" path) := by
  unfold configured
  split
  · next hfile => exact absurd hfile h
  · rfl

theorem requireFile_error {raw : String} (label : String)
    (h : t.kind (Path.join s.directory raw) ≠ .ok .file) :
    (requireFile storage s raw label).runOn t =
      (.error (missing label (Path.join s.directory raw)), t) := by
  have hkind : Filing.runOn (ExceptT.lift (storage.kind (Path.join s.directory raw))) t =
      (.ok (t.kind (Path.join s.directory raw)), t) := rfl
  rw [requireFile, Filing.runOn_bind_ok hkind]
  split
  · next hfile => exact absurd hfile h
  · rfl

theorem requireDirectory_ok {raw : String}
    (h : t.kind (Path.join s.directory raw) = .ok .directory) :
    (requireDirectory storage s raw).runOn t = (.ok (Path.join s.directory raw), t) := by
  have hkind : Filing.runOn (ExceptT.lift (storage.kind (Path.join s.directory raw))) t =
      (.ok (.ok .directory), t) := by
    rw [← h]
    rfl
  rw [requireDirectory, Filing.runOn_bind_ok hkind]
  rfl

theorem runOn_return {α β : Type} {x : Filing (StateM FileTree) α} {result : Except Diagnostic α}
    (h : x.runOn t = (result, t')) (f : α → β) :
    Filing.runOn (x >>= fun a => pure (f a)) t = (result.map f, t') := by
  cases result with
  | error d => exact Filing.runOn_bind_error h _
  | ok a => exact Filing.runOn_bind_ok h _

theorem runCompile_unconfigured (output date : Option String)
    (h : t.kind (Path.join s.directory config) ≠ .ok .file) :
    Filing.runOn (runCompile storage s config input output date) t =
      (.error (missing "config" (Path.join s.directory config)), t) := by
  rw [runCompile]
  exact Filing.runOn_bind_error (requireFile_error _ h) _

theorem runBatch_unconfigured (directory : String) (date : Option String)
    (h : t.kind (Path.join s.directory config) ≠ .ok .file) :
    Filing.runOn (runBatch storage s config directory date) t =
      (.error (missing "config" (Path.join s.directory config)), t) := by
  rw [runBatch]
  exact Filing.runOn_bind_error (requireFile_error _ h) _

section Configured

variable (hconfig : t.kind (Path.join s.directory config) = .ok .file)
include hconfig

theorem runCompile_missing (output date : Option String)
    (h : t.kind (Path.join s.directory input) ≠ .ok .file) :
    Filing.runOn (runCompile storage s config input output date) t =
      (.error (missing "input" (Path.join s.directory input)), t) := by
  rw [runCompile, Filing.runOn_bind_ok (requireFile_ok _ hconfig)]
  exact Filing.runOn_bind_error (requireFile_error _ h) _

variable {r : Registry}

section Compile

variable (hinput : t.kind (Path.join s.directory input) = .ok .file)
include hinput

theorem runCompile_unloaded (output date : Option String) {d : Diagnostic}
    (h : t.configuration (Path.join s.directory config) = .error d) :
    Filing.runOn (runCompile storage s config input output date) t = (.error d, t) := by
  have hload := runOn_loadConfiguration t (Path.join s.directory config)
  rw [h] at hload
  rw [runCompile, Filing.runOn_bind_ok (requireFile_ok _ hconfig),
    Filing.runOn_bind_ok (requireFile_ok _ hinput)]
  exact Filing.runOn_bind_error hload _

theorem runCompile_loaded {result : Except Diagnostic CompiledFile}
    (h : t.configuration (Path.join s.directory config) = .ok r)
    (hresult : (Filing.compileFile storage r (Path.join s.directory input) none date).runOn t =
      (result, t')) :
    Filing.runOn (runCompile storage s config input none (some date)) t =
      (result.map .ofCompiled, t') := by
  have hload := runOn_loadConfiguration t (Path.join s.directory config)
  rw [h] at hload
  rw [runCompile, Filing.runOn_bind_ok (requireFile_ok _ hconfig),
    Filing.runOn_bind_ok (requireFile_ok _ hinput)]
  exact (Filing.runOn_bind_ok hload _).trans (runOn_return hresult _)

end Compile

section Batch

variable {directory : String} {scenes : List String}
  (hdirectory : t.kind (Path.join s.directory directory) = .ok .directory)
  (hscenes : (Filing.sceneFiles storage (Path.join s.directory directory)).runOn t =
    (.ok scenes, t))
  (hsome : scenes ≠ [])
include hdirectory hscenes hsome

theorem runBatch_eq (date : Option String) :
    Filing.runOn (runBatch storage s config directory date) t =
      Filing.runOn (Filing.loadConfiguration storage (Path.join s.directory config) >>= fun r =>
        Filing.compileDirectory storage r (Path.join s.directory directory)
          (date.getD s.today) >>= fun files => pure (Report.ofBatch files)) t := by
  rw [runBatch, Filing.runOn_bind_ok (requireFile_ok _ hconfig),
    Filing.runOn_bind_ok (requireDirectory_ok hdirectory), Filing.runOn_bind_ok hscenes]
  exact congrArg (Filing.runOn · t) (if_neg (by simpa using hsome))

theorem runBatch_unloaded (date : Option String) {d : Diagnostic}
    (h : t.configuration (Path.join s.directory config) = .error d) :
    Filing.runOn (runBatch storage s config directory date) t = (.error d, t) := by
  have hload := runOn_loadConfiguration t (Path.join s.directory config)
  rw [h] at hload
  rw [runBatch_eq hconfig hdirectory hscenes hsome, Filing.runOn_bind_error hload]

theorem runBatch_loaded {result : Except Diagnostic (List CompiledFile)}
    (h : t.configuration (Path.join s.directory config) = .ok r)
    (hresult : (Filing.compileAll storage r date scenes).runOn t = (result, t')) :
    Filing.runOn (runBatch storage s config directory (some date)) t =
      (result.map .ofBatch, t') := by
  have hload := runOn_loadConfiguration t (Path.join s.directory config)
  rw [h] at hload
  have hcompile :
      (Filing.compileDirectory storage r (Path.join s.directory directory) date).runOn t =
      (result, t') := by
    rw [Filing.compileDirectory, Filing.runOn_bind_ok hscenes, hresult]
  rw [runBatch_eq hconfig hdirectory hscenes hsome, Filing.runOn_bind_ok hload]
  exact runOn_return hcompile _

end Batch

end Configured

end Runs

theorem code_inBatch (scene : String) (d : Diagnostic) :
    (Filing.inBatch scene d).code = d.code := by
  unfold Filing.inBatch
  split <;> rfl

theorem parse_batch {config directory date : String} (hconfig : isHyphenated config = false)
    (hdirectory : isHyphenated directory = false) (hdate : isHyphenated date = false) :
    parse ["batch", "--config", config, "--dir", directory, "--header-date", date] =
      .ok (.batch config directory (some date)) := by
  simp only [parse, options, hconfig, hdirectory, hdate]
  rfl

theorem parse_compile {config input date : String} (hconfig : isHyphenated config = false)
    (hinput : isHyphenated input = false) (hdate : isHyphenated date = false) :
    parse ["compile", "--config", config, "--input", input, "--header-date", date] =
      .ok (.compile config input none (some date)) := by
  simp only [parse, options, hconfig, hinput, hdate]
  rfl

theorem isHyphenated_of_isAbsolute {path : String} (h : Path.IsAbsolute path) :
    isHyphenated path = false := by
  obtain ⟨rest, hrest⟩ := List.isPrefixOf_iff_prefix.mp h
  simp [isHyphenated, ← hrest, List.isPrefixOf]

end Request

end SceneDispatch

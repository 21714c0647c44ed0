import Mathlib.Data.List.Sort
import SceneDispatch.Compiler
import SceneDispatch.Proofs.Markup.Position
import SceneDispatch.Proofs.Scene.Derivation
/-!
Loading a configuration. Definitions are taken from all depths in document order and registered one
by one, and the first that is refused ends the loading. Main statement: a configuration is loaded
exactly if all its definitions are complete and their names are distinct, and the registry holds
what they describe; so neither the order nor the nesting of the definitions plays a part.
-/
namespace SceneDispatch

namespace OrderedTable

section Lookup

variable {α κ : Type} [LE κ] [LT κ] [DecidableEq κ] [Std.IsLinearOrder κ] [Std.LawfulOrderLT κ]
  {key : α → κ}

/-- A table is known by what is found in it. -/
theorem eq_of_find?_eq {s t : OrderedTable key} (h : ∀ k, s.find? k = t.find? k) : s = t := by
  have hsorted : ∀ {l : List α}, l.Pairwise (key · < key ·) → l.Nodup := by
    intro l hl
    refine hl.imp ?_
    rintro a _ hlt rfl
    exact Std.lt_irrefl hlt
  have hmem : ∀ a, a ∈ s.entries ↔ a ∈ t.entries := fun a => by
    have hfind := h (key a)
    have hs : s.find? (key a) = some a ↔ _ := find?_eq_some_iff
    have ht : t.find? (key a) = some a ↔ _ := find?_eq_some_iff
    rw [hfind] at hs
    simpa using hs.symm.trans ht
  refine eq_of_entries_eq (List.Perm.eq_of_pairwise ?_ s.sorted t.sorted ?_)
  · intro a b _ _ hab hba
    exact absurd (Std.lt_trans hab hba) Std.lt_irrefl
  · exact (List.perm_ext_iff_of_nodup (hsorted s.sorted) (hsorted t.sorted)).mpr hmem

variable [DecidableLT κ]

theorem find?_foldl_insert (l : List α) (t : OrderedTable key) (k : κ) :
    (l.foldl insert t).find? k = (l.reverse.find? (key · = k)).or (t.find? k) := by
  induction l generalizing t with
  | nil => simp
  | cons a l ih =>
    rw [List.foldl_cons, ih, find?_insert, List.reverse_cons, List.find?_append, Option.or_assoc]
    by_cases ha : key a = k <;> simp [ha]

/-- Entries with distinct keys are all found. -/
theorem find?_ofList {l : List α} (hl : (l.map key).Nodup) {k : κ} {a : α} :
    (ofList l : OrderedTable key).find? k = some a ↔ a ∈ l ∧ key a = k := by
  rw [ofList, find?_foldl_insert, find?_empty, Option.or_none]
  constructor
  · intro h
    exact ⟨List.mem_reverse.mp (List.mem_of_find?_eq_some h), by simpa using List.find?_some h⟩
  · rintro ⟨ha, rfl⟩
    obtain ⟨b, hb⟩ : ∃ b, l.reverse.find? (key · = key a) = some b :=
      Option.isSome_iff_exists.mp (List.find?_isSome.mpr ⟨a, List.mem_reverse.mpr ha, by simp⟩)
    have hsame : key b = key a := by simpa using List.find?_some hb
    have hmem : b ∈ l := List.mem_reverse.mp (List.mem_of_find?_eq_some hb)
    rw [hb, List.inj_on_of_nodup_map hl hmem ha hsame]

end Lookup

end OrderedTable

namespace Registry

/-- The definition has a name, and either a script or both sides of a comparison. -/
def Complete (t : Tag) : Prop :=
  (t.attribute? "name").isSome ∧
    ((t.attribute? "js").isSome ∨ (t.attribute? "right").isSome ∧ (t.attribute? "left").isSome)

instance (t : Tag) : Decidable (Complete t) := inferInstanceAs (Decidable (_ ∧ _))

/-- The feature that a definition describes: plain if it has a script, and otherwise a switch. -/
structure Describes (t : Tag) (f : Feature) : Prop where
  name : t.attribute? "name" = some f.name
  dependency : t.attribute? "dependsOn" = f.dependency
  form : (t.attribute? "js" = some f.template ∧ f.form = .plain) ∨
    (t.attribute? "js" = none ∧ t.attribute? "right" = some f.template ∧
      ∃ left, t.attribute? "left" = some left ∧ f.form = .switch left)

/-- What loading reads of a definition. -/
def content (t : Tag) : List (Option String) :=
  ["name", "js", "right", "left", "dependsOn"].map t.attribute?

/-- The path leads down from the root to an element with this tag, which is a definition. -/
structure DefinedAt (root : Element) (p : Path) (t : Tag) : Prop where
  below : p ≠ []
  found : ∃ children, root.at? p = some (.mk t children)
  tagged : t.name = definitionTag

section Definition

variable {t u : Tag} {f : Feature}

theorem bind_eq_ok_iff {α β : Type} {x : Except Fault α} {k : α → Except Fault β} {b : β} :
    (x >>= k) = .ok b ↔ ∃ a, x = .ok a ∧ k a = .ok b := by
  cases x <;> simp [bind, Except.bind]

theorem definition_eq_ok_iff : definition t = .ok f ↔ Describes t f := by
  simp only [definition, bind_eq_ok_iff, Vocabulary.require_eq_ok_iff]
  cases hjs : t.attribute? "js" with
  | some js =>
    constructor
    · rintro ⟨name, hname, hfeature⟩
      cases hfeature
      exact ⟨hname, rfl, .inl ⟨hjs, rfl⟩⟩
    · rintro ⟨hname, hdependency, ⟨hplain, hform⟩ | ⟨hnone, -⟩⟩
      · refine ⟨f.name, hname, ?_⟩
        rw [hdependency, ← hform, Option.some.inj (hjs.symm.trans hplain)]
      · simp [hjs] at hnone
  | none =>
    simp only [bind_eq_ok_iff, Vocabulary.require_eq_ok_iff]
    constructor
    · rintro ⟨name, hname, right, hright, left, hleft, hfeature⟩
      cases hfeature
      exact ⟨hname, rfl, .inr ⟨hjs, hright, left, hleft, rfl⟩⟩
    · rintro ⟨hname, hdependency, ⟨hplain, -⟩ | ⟨-, hright, left, hleft, hform⟩⟩
      · simp [hjs] at hplain
      · refine ⟨f.name, hname, f.template, hright, left, hleft, ?_⟩
        rw [hdependency, ← hform]

theorem exists_describes_iff : (∃ f, Describes t f) ↔ Complete t := by
  constructor
  · rintro ⟨f, hname, -, ⟨hjs, -⟩ | ⟨-, hright, left, hleft, -⟩⟩
    · simp [Complete, hname, hjs]
    · simp [Complete, hname, hright, hleft]
  · rintro ⟨hname, hsides⟩
    obtain ⟨name, hname⟩ := Option.isSome_iff_exists.mp hname
    cases hjs : t.attribute? "js" with
    | some js => exact ⟨⟨name, js, t.attribute? "dependsOn", .plain⟩, hname, rfl, .inl ⟨hjs, rfl⟩⟩
    | none =>
      obtain ⟨hright, hleft⟩ := hsides.resolve_left (by simp [hjs])
      obtain ⟨right, hright⟩ := Option.isSome_iff_exists.mp hright
      obtain ⟨left, hleft⟩ := Option.isSome_iff_exists.mp hleft
      exact ⟨⟨name, right, t.attribute? "dependsOn", .switch left⟩, hname, rfl,
        .inr ⟨hjs, hright, left, hleft, rfl⟩⟩

theorem Describes.unique {g : Feature} (hf : Describes t f) (hg : Describes t g) : f = g :=
  Except.ok.inj ((definition_eq_ok_iff.mpr hf).symm.trans (definition_eq_ok_iff.mpr hg))

/-- A definition means the same wherever it stands. -/
theorem describes_congr (h : content t = content u) : Describes t f ↔ Describes u f := by
  simp only [content, List.map_cons, List.map_nil, List.cons.injEq, and_true] at h
  obtain ⟨hname, hjs, hright, hleft, hdependency⟩ := h
  constructor
  · rintro ⟨name, dependency, form⟩
    rw [hjs, hright, hleft] at form
    exact ⟨hname ▸ name, hdependency ▸ dependency, form⟩
  · rintro ⟨name, dependency, form⟩
    rw [← hjs, ← hright, ← hleft] at form
    exact ⟨hname ▸ name, hdependency ▸ dependency, form⟩

end Definition

section Loading

variable {r r' : Registry} {t : Tag} {ts : List Tag} {root : Element} {f : Feature} {name : String}

theorem define_eq_ok_iff :
    r.define t = .ok r' ↔ ∃ f, Describes t f ∧ r.has f.name = false ∧
      r' = { r with features := r.features.insert f } := by
  simp only [define, bind_eq_ok_iff, definition_eq_ok_iff, register]
  refine exists_congr fun f => and_congr_right fun _ => ?_
  split
  · next hhas => simp [hhas]
  · next hhas => simp [hhas, eq_comm]

theorem has_insert_eq_false_iff :
    has { r with features := r.features.insert f } name = false ↔
      f.name ≠ name ∧ r.has name = false := by
  unfold has OrderedTable.contains
  rw [OrderedTable.find?_insert]
  split <;> simp_all

/-- Loading goes through if each definition describes a feature whose name is new. -/
theorem foldlM_define_eq_ok_iff :
    ts.foldlM define r = .ok r' ↔ ∃ fs : List Feature, List.Forall₂ Describes ts fs ∧
      (fs.map Feature.name).Nodup ∧ (∀ f ∈ fs, r.has f.name = false) ∧
      r' = { r with features := fs.foldl OrderedTable.insert r.features } := by
  induction ts generalizing r with
  | nil =>
    constructor
    · intro h
      cases h
      exact ⟨[], .nil, List.nodup_nil, by simp, rfl⟩
    · rintro ⟨fs, hfs, -, -, rfl⟩
      cases hfs
      rfl
  | cons t ts ih =>
    rw [List.foldlM_cons, bind_eq_ok_iff]
    constructor
    · rintro ⟨r₁, hstep, hrest⟩
      obtain ⟨f, hf, hnew, rfl⟩ := define_eq_ok_iff.mp hstep
      obtain ⟨fs, hfs, hdistinct, hlater, rfl⟩ := ih.mp hrest
      have hfirst : f.name ∉ fs.map Feature.name := by
        intro hmem
        obtain ⟨g, hg, hsame⟩ := List.mem_map.mp hmem
        exact (has_insert_eq_false_iff.mp (hlater g hg)).1 hsame.symm
      refine ⟨f :: fs, .cons hf hfs, List.nodup_cons.mpr ⟨hfirst, hdistinct⟩, ?_, rfl⟩
      exact List.forall_mem_cons.mpr
        ⟨hnew, fun g hg => (has_insert_eq_false_iff.mp (hlater g hg)).2⟩
    · rintro ⟨fs, hfs, hdistinct, hnew, rfl⟩
      obtain ⟨f, fs, hf, hrest, rfl⟩ := List.forall₂_cons_left_iff.mp hfs
      obtain ⟨hfirst, hdistinct⟩ := List.nodup_cons.mp hdistinct
      obtain ⟨hnew, hlater⟩ := List.forall_mem_cons.mp hnew
      refine ⟨_, define_eq_ok_iff.mpr ⟨f, hf, hnew, rfl⟩,
        ih.mpr ⟨fs, hrest, hdistinct, fun g hg => ?_, rfl⟩⟩
      exact has_insert_eq_false_iff.mpr
        ⟨fun hsame => hfirst (hsame ▸ List.mem_map_of_mem hg), hlater g hg⟩

/-- The manager that a configuration names, or the one it has without naming any. -/
def managerOf (root : Element) : String := (root.attribute? "manager").getD defaultManager

theorem ofElement_eq_ok_iff :
    ofElement root = .ok r ↔ ∃ fs : List Feature, List.Forall₂ Describes (definitions root) fs ∧
      (fs.map Feature.name).Nodup ∧ r = ⟨managerOf root, .ofList fs⟩ := by
  rw [ofElement, foldlM_define_eq_ok_iff]
  refine exists_congr fun fs => and_congr_right fun _ => and_congr_right fun _ => ?_
  exact and_iff_right fun _ _ => rfl

theorem names_of_describes {fs : List Feature} (h : List.Forall₂ Describes ts fs) :
    ts.map (·.attribute? "name") = fs.map fun f => some f.name := by
  induction h with
  | nil => rfl
  | cons hf _ ih => rw [List.map_cons, List.map_cons, hf.name, ih]

theorem exists_forall₂_describes_iff :
    (∃ fs, List.Forall₂ Describes ts fs) ↔ ∀ t ∈ ts, Complete t := by
  induction ts with
  | nil => simp
  | cons t ts ih =>
    rw [List.forall_mem_cons, ← ih, ← exists_describes_iff]
    constructor
    · rintro ⟨fs, hfs⟩
      obtain ⟨f, fs, hf, hrest, -⟩ := List.forall₂_cons_left_iff.mp hfs
      exact ⟨⟨f, hf⟩, fs, hrest⟩
    · rintro ⟨⟨f, hf⟩, fs, hrest⟩
      exact ⟨f :: fs, .cons hf hrest⟩

theorem nodup_names_iff {fs : List Feature} (h : List.Forall₂ Describes ts fs) :
    (ts.map (·.attribute? "name")).Nodup ↔ (fs.map Feature.name).Nodup := by
  rw [names_of_describes h, ← List.nodup_map_iff (Option.some_injective String), List.map_map]
  rfl

theorem exists_ofElement_iff :
    (∃ r, ofElement root = .ok r) ↔ (∀ t ∈ definitions root, Complete t) ∧
      ((definitions root).map (·.attribute? "name")).Nodup := by
  rw [← exists_forall₂_describes_iff]
  constructor
  · rintro ⟨r, hr⟩
    obtain ⟨fs, hfs, hdistinct, -⟩ := ofElement_eq_ok_iff.mp hr
    exact ⟨⟨fs, hfs⟩, (nodup_names_iff hfs).mpr hdistinct⟩
  · rintro ⟨⟨fs, hfs⟩, hdistinct⟩
    exact ⟨_, ofElement_eq_ok_iff.mpr ⟨fs, hfs, (nodup_names_iff hfs).mp hdistinct, rfl⟩⟩

theorem mem_iff_of_describes {fs : List Feature} (h : List.Forall₂ Describes ts fs) :
    f ∈ fs ↔ ∃ t ∈ ts, Describes t f := by
  induction h with
  | nil => simp
  | cons hf _ ih =>
    rw [List.mem_cons, ih, List.exists_mem_cons_iff]
    exact or_congr_left ⟨fun hsame => hsame ▸ hf, fun hf' => hf'.unique hf⟩

theorem find?_ofElement (h : ofElement root = .ok r) :
    r.find? name = some f ↔ ∃ t ∈ definitions root, Describes t f ∧ f.name = name := by
  obtain ⟨fs, hfs, hdistinct, rfl⟩ := ofElement_eq_ok_iff.mp h
  rw [show find? ⟨managerOf root, .ofList fs⟩ name = some f ↔ _ from
      OrderedTable.find?_ofList hdistinct,
    mem_iff_of_describes hfs]
  simp only [← exists_and_right, and_assoc]

theorem manager_ofElement (h : ofElement root = .ok r) : r.manager = managerOf root := by
  obtain ⟨fs, -, -, rfl⟩ := ofElement_eq_ok_iff.mp h
  rfl

end Loading

section Places

variable {root : Element} {t : Tag}

/-- The places of the definitions in document order. -/
def definitionPlaces (root : Element) : List (Path × Element) :=
  root.places.filter (·.2.name = definitionTag)

theorem definitions_eq_map (root : Element) :
    definitions root = (definitionPlaces root).map (·.2.tag) := by
  rw [definitions, definitionPlaces, ← Element.map_snd_places, List.filter_map, List.map_map]
  rfl

theorem mem_definitionPlaces_iff {p : Path} {d : Element} :
    (p, d) ∈ definitionPlaces root ↔ root.at? p = some d ∧ DefinedAt root p d.tag := by
  obtain ⟨t, children⟩ := d
  rw [definitionPlaces, List.mem_filter, Element.mem_places_iff, decide_eq_true_iff]
  constructor
  · rintro ⟨⟨hbelow, hfound⟩, htagged⟩
    exact ⟨hfound, hbelow, ⟨children, hfound⟩, htagged⟩
  · rintro ⟨hfound, hdefined⟩
    exact ⟨⟨hdefined.below, hfound⟩, hdefined.tagged⟩

theorem DefinedAt.mem {p : Path} (h : DefinedAt root p t) :
    ∃ d, (p, d) ∈ definitionPlaces root ∧ d.tag = t := by
  obtain ⟨children, hfound⟩ := h.found
  exact ⟨.mk t children, mem_definitionPlaces_iff.mpr ⟨hfound, h⟩, rfl⟩

theorem mem_definitions_iff : t ∈ definitions root ↔ ∃ p, DefinedAt root p t := by
  rw [definitions_eq_map, List.mem_map]
  constructor
  · rintro ⟨⟨p, d⟩, hplace, rfl⟩
    exact ⟨p, (mem_definitionPlaces_iff.mp hplace).2⟩
  · rintro ⟨p, hdefined⟩
    obtain ⟨d, hplace, rfl⟩ := hdefined.mem
    exact ⟨(p, d), hplace, rfl⟩

/-- The names are distinct if no two places have the same name. -/
theorem nodup_definitions_iff {α : Type} (g : Tag → α) :
    ((definitions root).map g).Nodup ↔ ∀ p q t u,
      DefinedAt root p t → DefinedAt root q u → g t = g u → p = q := by
  have hplaces : (definitionPlaces root).Nodup := (Element.nodup_places root).filter _
  rw [definitions_eq_map, List.map_map, List.nodup_map_iff_inj_on hplaces]
  constructor
  · intro h p q t u ht hu hsame
    obtain ⟨d, hd, rfl⟩ := ht.mem
    obtain ⟨e, he, rfl⟩ := hu.mem
    exact congrArg Prod.fst (h (p, d) hd (q, e) he hsame)
  · rintro h ⟨p, d⟩ hd ⟨q, e⟩ he hsame
    obtain ⟨hfound, hdefined⟩ := mem_definitionPlaces_iff.mp hd
    obtain ⟨hfound', hdefined'⟩ := mem_definitionPlaces_iff.mp he
    obtain rfl := h p q _ _ hdefined hdefined' hsame
    rw [Option.some.inj (hfound.symm.trans hfound')]

end Places

section Rearranging

variable {a b : Element} {r s : Registry}

/-- The definitions of the two configurations say the same, up to their order and their places. -/
def Rearranged (a b : Element) : Prop :=
  ((definitions a).map content).Perm ((definitions b).map content)

instance (a b : Element) : Decidable (Rearranged a b) :=
  inferInstanceAs (Decidable (List.Perm _ _))

theorem complete_congr {t u : Tag} (h : content t = content u) : Complete t ↔ Complete u := by
  simp only [← exists_describes_iff, describes_congr h]

/-- The name stands first in what is read of a definition. -/
theorem names_eq_map (ts : List Tag) :
    ts.map (·.attribute? "name") = (ts.map content).map (·.headD none) := by
  rw [List.map_map]
  rfl

theorem Rearranged.loads (h : Rearranged a b) (hr : ofElement a = .ok r) :
    ∃ s, ofElement b = .ok s := by
  obtain ⟨hcomplete, hdistinct⟩ := exists_ofElement_iff.mp ⟨r, hr⟩
  refine exists_ofElement_iff.mpr ⟨fun u hu => ?_, ?_⟩
  · obtain ⟨t, ht, hsame⟩ := List.mem_map.mp (h.symm.subset (List.mem_map_of_mem hu))
    exact (complete_congr hsame).mp (hcomplete t ht)
  · rw [names_eq_map] at hdistinct ⊢
    exact (h.map _).nodup_iff.mp hdistinct

theorem Rearranged.find?_of_find? {name : String} {f : Feature} (h : Rearranged a b)
    (hr : ofElement a = .ok r) (hs : ofElement b = .ok s) (hf : r.find? name = some f) :
    s.find? name = some f := by
  obtain ⟨t, ht, hdescribes, hname⟩ := (find?_ofElement hr).mp hf
  obtain ⟨u, hu, hsame⟩ := List.mem_map.mp (h.subset (List.mem_map_of_mem ht))
  exact (find?_ofElement hs).mpr ⟨u, hu, (describes_congr hsame).mpr hdescribes, hname⟩

theorem Rearranged.registry_eq (h : Rearranged a b) (hmanager : managerOf a = managerOf b)
    (hr : ofElement a = .ok r) (hs : ofElement b = .ok s) : r = s := by
  have hfeatures : r.features = s.features :=
    OrderedTable.eq_of_find?_eq fun name => Option.ext fun f =>
      ⟨h.find?_of_find? hr hs, Rearranged.find?_of_find? h.symm hs hr⟩
  have hmanagers : r.manager = s.manager := by
    rw [manager_ofElement hr, manager_ofElement hs, hmanager]
  obtain ⟨_, _⟩ := r
  obtain ⟨_, _⟩ := s
  obtain rfl : _ = _ := hfeatures
  obtain rfl : _ = _ := hmanagers
  rfl

theorem Rearranged.ofElement_of_eq_ok (h : Rearranged a b) (hmanager : managerOf a = managerOf b)
    (hr : ofElement a = .ok r) : ofElement b = .ok r := by
  obtain ⟨s, hs⟩ := h.loads hr
  rw [hs, h.registry_eq hmanager hr hs]

end Rearranging

/-- A configuration is loaded exactly if all definitions below its root are complete and no two of
them have the same name, and then the registry holds the features they describe and no others. So
two configurations with the same manager whose definitions differ in order and nesting alone load
the same registry or none, and compile every scene alike. -/
theorem ofElement_by_definitions :
    (∀ root : Element,
      ((∃ r, ofElement root = .ok r) ↔
        (∀ p t, DefinedAt root p t → Complete t) ∧
        ∀ p q t u, DefinedAt root p t → DefinedAt root q u →
          t.attribute? "name" = u.attribute? "name" → p = q) ∧
      ∀ r, ofElement root = .ok r → r.manager = managerOf root ∧ ∀ name f,
        r.find? name = some f ↔ ∃ p t, DefinedAt root p t ∧ Describes t f ∧ f.name = name) ∧
    ∀ a b : Element, managerOf a = managerOf b → Rearranged a b →
      (∀ r, ofElement a = .ok r ↔ ofElement b = .ok r) ∧
      ∀ source date result, (∃ r, ofElement a = .ok r ∧ r.compile source date = result) ↔
        ∃ r, ofElement b = .ok r ∧ r.compile source date = result := by
  refine ⟨fun root => ⟨?_, fun r hr => ⟨manager_ofElement hr, fun name f => ?_⟩⟩,
    fun a b hmanager h => ?_⟩
  · rw [exists_ofElement_iff, nodup_definitions_iff]
    simp only [mem_definitions_iff, forall_exists_index]
    exact and_congr_left fun _ => forall_comm
  · rw [find?_ofElement hr]
    simp only [mem_definitions_iff, ← exists_and_right]
    exact exists_comm
  · have hsame : ∀ r, ofElement a = .ok r ↔ ofElement b = .ok r := fun r =>
      ⟨h.ofElement_of_eq_ok hmanager, Rearranged.ofElement_of_eq_ok h.symm hmanager.symm⟩
    exact ⟨hsame, fun source date result => by simp only [hsame]⟩

end Registry

namespace Sample

def giveDefinition (children : List Element) : Element :=
  element "featureDefinition" [⟨"name", "give"⟩, ⟨"js", "$.gainMeso($x)"⟩] children

def jobDefinition : Element :=
  element "featureDefinition" [⟨"right", "$x"⟩, ⟨"left", "$.getJob()"⟩, ⟨"name", "switch_job"⟩] []

/-- One definition in a group inside the other. -/
def nestedConfiguration : Element :=
  element "config" [] [giveDefinition [element "switches" [] [jobDefinition]]]

/-- The same definitions side by side in the other order. -/
def flatConfiguration : Element :=
  element "hajs" [⟨"manager", "cm"⟩] [jobDefinition, giveDefinition []]

end Sample

namespace Registry

open Sample

theorem nested_ofElement_by_definitions :
    Rearranged nestedConfiguration flatConfiguration ∧
      ∃ r, ofElement nestedConfiguration = .ok r ∧ ofElement flatConfiguration = .ok r ∧
        r.find? "give" = some give ∧ r.find? "switch_job" = some job := by
  have hrearranged : Rearranged nestedConfiguration flatConfiguration := by decide
  obtain ⟨hload, hsame⟩ := ofElement_by_definitions
  obtain ⟨r, hr⟩ : ∃ r, ofElement nestedConfiguration = .ok r := ⟨_, rfl⟩
  have hfind := ((hload nestedConfiguration).2 r hr).2
  have hother := ((hsame nestedConfiguration flatConfiguration rfl hrearranged).1 r).mp hr
  refine ⟨hrearranged, r, hr, hother, ?_, ?_⟩
  · exact (hfind _ _).mpr ⟨[0], _, ⟨by decide, ⟨_, rfl⟩, rfl⟩, ⟨rfl, rfl, .inl ⟨rfl, rfl⟩⟩, rfl⟩
  · exact (hfind _ _).mpr
      ⟨[0, 0, 0], _, ⟨by decide, ⟨_, rfl⟩, rfl⟩, ⟨rfl, rfl, .inr ⟨rfl, rfl, _, rfl, rfl⟩⟩, rfl⟩

end Registry

end SceneDispatch

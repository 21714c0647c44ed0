import Mathlib.Data.List.Nodup
import SceneDispatch.Markup.Element
import SceneDispatch.Proofs.Scene.Shape
/-!
Positions of elements. The elements below another one are those at the ends of the paths that lead
down from it, and the list of them has one entry for each such path.
-/
namespace SceneDispatch.Element

/-- The element at the end of a path. -/
def at? : Element → Path → Option Element
  | e, [] => some e
  | e, i :: p => e.children[i]?.bind (at? · p)

@[simp] theorem at?_nil (e : Element) : e.at? [] = some e := rfl

theorem at?_cons (e : Element) (i : Nat) (p : Path) :
    e.at? (i :: p) = e.children[i]?.bind (at? · p) := rfl

/-- A property of the tags of an element and of all that is below it. -/
def Everywhere (P : Tag → Prop) (e : Element) : Prop := ∀ p d, e.at? p = some d → P d.tag

theorem Everywhere.mk {P : Tag → Prop} {t : Tag} {children : List Element} (ht : P t)
    (hchildren : ∀ e ∈ children, e.Everywhere P) : (Element.mk t children).Everywhere P := by
  intro p d hd
  cases p with
  | nil =>
    cases hd
    exact ht
  | cons i p =>
    obtain ⟨e, he, hd⟩ := Option.bind_eq_some_iff.mp hd
    exact hchildren e (List.mem_of_getElem? he) p d hd

/-- The way down to a sibling that stands `i` places further to the right. -/
def beside (i : Nat) (place : Path × Element) : Path × Element := (i :: place.1, place.2)

mutual

/-- The elements below this one in the order of `descendants`, each with the path that leads to
it. -/
def places : Element → List (Path × Element)
  | mk _ children => placesAmong 0 children

/-- The places of siblings, the first of which is number `i`, and of what is below them. -/
def placesAmong (i : Nat) : List Element → List (Path × Element)
  | [] => []
  | e :: es => ([i], e) :: ((places e).map (beside i) ++ placesAmong (i + 1) es)

end

mutual

theorem map_snd_places : ∀ e : Element, e.places.map Prod.snd = e.descendants
  | mk _ children => map_snd_placesAmong 0 children

theorem map_snd_placesAmong (i : Nat) : ∀ es : List Element,
    (placesAmong i es).map Prod.snd = descendantsOfAll es
  | [] => rfl
  | e :: es => by
    have hbelow : ((places e).map (beside i)).map Prod.snd = e.descendants := by
      rw [List.map_map]
      exact map_snd_places e
    rw [placesAmong, descendantsOfAll, List.map_cons, List.map_append, hbelow,
      map_snd_placesAmong (i + 1) es]

end

mutual

theorem mem_places_iff : ∀ {e : Element} {p : Path} {d : Element},
    (p, d) ∈ e.places ↔ p ≠ [] ∧ e.at? p = some d
  | mk _ children, p, d => by
    rw [places, mem_placesAmong_iff]
    constructor
    · rintro ⟨j, q, rfl, hd⟩
      rw [Nat.zero_add]
      exact ⟨List.cons_ne_nil _ _, hd⟩
    · rintro ⟨hp, hd⟩
      obtain ⟨j, q, rfl⟩ := List.exists_cons_of_ne_nil hp
      exact ⟨j, q, by rw [Nat.zero_add], hd⟩

theorem mem_placesAmong_iff : ∀ {es : List Element} {i : Nat} {p : Path} {d : Element},
    (p, d) ∈ placesAmong i es ↔ ∃ j q, p = (i + j) :: q ∧ es[j]?.bind (at? · q) = some d
  | [], _, _, _ => by simp [placesAmong]
  | e :: es, i, p, d => by
    rw [placesAmong, List.mem_cons, List.mem_append, mem_placesAmong_iff]
    constructor
    · rintro (hself | hbelow | ⟨j, q, rfl, hd⟩)
      · cases hself
        exact ⟨0, [], rfl, rfl⟩
      · obtain ⟨⟨q, d⟩, hq, hplace⟩ := List.mem_map.mp hbelow
        cases hplace
        exact ⟨0, q, rfl, (mem_places_iff.mp hq).2⟩
      · exact ⟨j + 1, q, by rw [Nat.add_right_comm, Nat.add_assoc], hd⟩
    · rintro ⟨j, q, rfl, hd⟩
      cases j with
      | zero =>
        cases q with
        | nil =>
          cases hd
          exact .inl rfl
        | cons k q =>
          have hq : (k :: q, d) ∈ e.places := mem_places_iff.mpr ⟨List.cons_ne_nil k q, hd⟩
          exact .inr (.inl (List.mem_map_of_mem hq))
      | succ j => exact .inr (.inr ⟨j, q, by rw [Nat.add_right_comm, Nat.add_assoc], hd⟩)

end

mutual

/-- No place is listed twice. -/
theorem nodup_places : ∀ e : Element, e.places.Nodup
  | mk _ children => nodup_placesAmong 0 children

theorem nodup_placesAmong (i : Nat) : ∀ es : List Element, (placesAmong i es).Nodup
  | [] => List.nodup_nil
  | e :: es => by
    have hinjective : Function.Injective (beside i) := by
      rintro ⟨p, d⟩ ⟨q, d'⟩ hsame
      cases hsame
      rfl
    have hbelow : ∀ place ∈ (places e).map (beside i), ∃ j q, place.1 = i :: j :: q := by
      intro place hplace
      obtain ⟨⟨p, d⟩, hp, rfl⟩ := List.mem_map.mp hplace
      obtain ⟨j, q, rfl⟩ := List.exists_cons_of_ne_nil (mem_places_iff.mp hp).1
      exact ⟨j, q, rfl⟩
    have hbehind : ∀ place ∈ placesAmong (i + 1) es, ∃ j q, place.1 = (i + 1 + j) :: q := by
      rintro ⟨p, d⟩ hp
      obtain ⟨j, q, hpath, -⟩ := mem_placesAmong_iff.mp hp
      exact ⟨j, q, hpath⟩
    rw [placesAmong, List.nodup_cons, List.nodup_append']
    refine ⟨?_, (nodup_places e).map hinjective, nodup_placesAmong (i + 1) es, ?_⟩
    · intro hmem
      rcases List.mem_append.mp hmem with h | h
      · obtain ⟨j, q, hpath⟩ := hbelow _ h
        cases hpath
      · obtain ⟨j, q, hpath⟩ := hbehind _ h
        have hindex := (List.cons.inj hpath).1
        omega
    · intro place hleft hright
      obtain ⟨j, q, hpath⟩ := hbelow _ hleft
      obtain ⟨k, q', hpath'⟩ := hbehind _ hright
      have hindex := (List.cons.inj (hpath.symm.trans hpath')).1
      omega

end

end SceneDispatch.Element

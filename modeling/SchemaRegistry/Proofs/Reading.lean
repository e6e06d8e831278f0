import SchemaRegistry.Proofs.Resolution
import SchemaRegistry.Registry.View

/-!
# Names and handles read alike

Reading the type of a field gives the same view whether the field stores a name or the handle that
the resolution pass has put in its place: `view_resolveField`. It rests on the index never pointing
past the end of its list, and it holds for every stored type, also one that no import makes.
-/

namespace SchemaRegistry

/-- A handle that is a position is followed to what is registered there. -/
theorem Catalog.follow_of_getElem? {c : Catalog} {hd : Handle} {i ref : Nat} (hhd : hd.index = i)
    (h : c.refs[i]? = some ref) : c.follow (some hd) = .ok ref := by
  have hlt : i < c.size := (Array.getElem?_eq_some_iff.mp h).choose
  have hat : c.at? hd.index = some ref := by
    unfold at?
    rw [hhd, offset?_natCast hlt]
    exact h
  unfold follow
  dsimp only
  rw [hat]

namespace Registry

variable {s : Store} {r : Registry} {i ref : Nat}

/-- A type bound to a registered message is viewed as that message. -/
theorem view_message (h : r.messages.refs[i]? = some ref) :
    r.view (.message i) = .ok (.ofMessage ref) := by
  have hf : r.messages.follow (some (.message i)) = .ok ref := Catalog.follow_of_getElem? rfl h
  simp [view, StoredType.message, hf, Except.map]

theorem view_enum (h : r.enums.refs[i]? = some ref) : r.view (.enum i) = .ok (.ofEnum ref) := by
  have hf : r.enums.follow (some (.enum i)) = .ok ref := Catalog.follow_of_getElem? rfl h
  simp [view, StoredType.enum, hf, Except.map]

/-- **The by-name path and the handle path agree.** -/
theorem view_resolved (h : r.Fits s) {t t' : StoredType} (ht : r.resolved? t = some t') :
    r.view t' = r.view t := by
  rcases resolved?_eq_some ht with ⟨n, i, hk, hn, hpos, rfl⟩ | ⟨n, i, hk, hn, hpos, rfl⟩
  · -- Where the index points there is a reference, and both ways of reading come to it.
    obtain ⟨ref, href, _⟩ := h.messages.ref_at hpos
    have hfind := Catalog.find?_of_position? hpos href
    rw [view_message href]
    simp [view, hk, hn, hfind]
  · obtain ⟨ref, href, _⟩ := h.enums.ref_at hpos
    have hfind := Catalog.find?_of_position? hpos href
    rw [view_enum href]
    simp [view, hk, hn, hfind]

/-- Resolving a field does not change how its type is viewed. -/
theorem view_resolveField (h : r.Fits s) (f : Field) :
    r.view (r.resolveField f).type = r.view f.type := by
  unfold resolveField
  cases ht : r.resolved? f.type with
  | none => rfl
  | some t => exact view_resolved h ht

/-- A view has the name of what leads nowhere from the field itself. -/
theorem typeName_of_view {t : StoredType} {v : TypeView} {n : String}
    (hv : r.view t = .ok v) (hn : v.typeName = some n) : t.typeName = some n := by
  unfold view at hv
  split at hv
  · split at hv <;> cases hv
    · cases hn
    · exact hn
  · split at hv <;> cases hv
    · cases hn
    · exact hn
  -- A handle is followed, and then the name is that of what it leads to, not one of the type.
  · cases hf : r.messages.follow t.handle with
    | error e => rw [hf] at hv; cases hv
    | ok ref => rw [hf] at hv; cases hv; cases hn
  · cases hf : r.enums.follow t.handle with
    | error e => rw [hf] at hv; cases hv
    | ok ref => rw [hf] at hv; cases hv; cases hn
  · cases hv
    cases hn

end Registry

/-! ## Descriptions -/

namespace TypeView

variable {s : Store} {ref : Nat} {n : String}

/-- A view of a message is described by the name of the message. -/
theorem describe_ofMessage (h : s.messageName? ref = some n) :
    (ofMessage ref).describe s = n := by
  have hname : (ofMessage ref).messageName? s = some n := h
  unfold describe
  rw [hname]

theorem describe_ofEnum (h : s.enumName? ref = some n) : (ofEnum ref).describe s = n := by
  have hno : (ofEnum ref).messageName? s = none := rfl
  have hname : (ofEnum ref).enumName? s = some n := h
  unfold describe
  rw [hno, hname]

end TypeView

end SchemaRegistry

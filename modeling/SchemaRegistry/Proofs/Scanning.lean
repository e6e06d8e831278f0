import SchemaRegistry.Wire.Scan

/-!
# Scanning byte strings one after another

What is read from the front of a byte string does not depend on what follows it (`Front`). So when
an intact message is put in front of other bytes, the scan gives its fields and goes on with those
bytes (`scan_append`).
-/

namespace SchemaRegistry.Wire

/-! ## Reading with more bytes behind -/

/-- What is read is read just as well with more bytes behind it, and they are left over. -/
def Front {α : Type} (read : List UInt8 → Option (α × List UInt8)) : Prop :=
  ∀ bytes a rest, read bytes = some (a, rest) →
    ∀ more, read (bytes ++ more) = some (a, rest ++ more)

namespace Front

variable {α β : Type} {read : List UInt8 → Option (α × List UInt8)}

/-- What is done with the result does not matter. -/
theorem map (h : Front read) (f : α → β) : Front fun bytes => (read bytes).map (Prod.map f id) := by
  intro bytes b rest hb more
  obtain ⟨⟨a, after⟩, hread, hpair⟩ := Option.map_eq_some_iff.mp hb
  cases hpair
  dsimp only
  rw [h _ _ _ hread more]
  rfl

/-- One reader after another. -/
theorem bind {next : α → List UInt8 → Option (β × List UInt8)} (h : Front read)
    (hnext : ∀ a, Front (next a)) : Front fun bytes => read bytes >>= fun x => next x.1 x.2 := by
  intro bytes b rest hb more
  obtain ⟨⟨a, after⟩, hread, hrest⟩ := Option.bind_eq_some_iff.mp hb
  dsimp only
  rw [h _ _ _ hread more]
  exact hnext a _ _ _ hrest more

theorem pure (a : α) : Front fun bytes => some (a, bytes) := by
  intro bytes b rest hb more
  cases hb
  rfl

theorem none : Front fun _ => (none : Option (α × List UInt8)) := by
  intro bytes b rest hb
  cases hb

/-- Both branches read from the front, so the choice does. -/
theorem ite {p : Prop} [Decidable p] {other : List UInt8 → Option (α × List UInt8)}
    (h : Front read) (hother : Front other) :
    Front fun bytes => if p then read bytes else other bytes := by
  split
  · exact h
  · exact hother

end Front

/-- A varint says itself where it ends. -/
theorem front_varint? (limit : Nat) : Front (varint? limit) := by
  induction limit with
  | zero => exact Front.none
  | succ limit ih =>
    rintro (_ | ⟨b, tail⟩) n rest h more
    · cases h
    · -- The byte ends the number, or the others follow it.
      have hbyte : Front fun bytes => if b.toNat < 128 then some (b.toNat, bytes)
          else (varint? limit bytes).map (Prod.map (fun high => b.toNat - 128 + 128 * high) id) :=
        .ite (.pure b.toNat) (ih.map _)
      have hcons (bytes : List UInt8) : varint? (limit + 1) (b :: bytes)
          = if b.toNat < 128 then some (b.toNat, bytes) else (varint? limit bytes).map
            (Prod.map (fun high => b.toNat - 128 + 128 * high) id) := by
        rw [varint?, Option.map_eq_bind]
        rfl
      rw [hcons] at h
      rw [List.cons_append, hcons]
      exact hbyte _ _ _ h more

theorem front_split? (n : Nat) : Front (split? n) := by
  intro bytes first rest h more
  unfold split? at h ⊢
  split at h
  · rename_i hlen
    rw [List.splitAt_eq] at h
    cases h
    rw [if_pos (by rw [List.length_append]; omega), List.splitAt_eq,
      List.take_append_of_le_length hlen, List.drop_append_of_le_length hlen]
  · cases h

theorem front_delimited? : Front delimited? :=
  (front_varint? 5).bind fun n => Front.ite (p := n < 0x80000000) (front_split? n) .none

theorem front_payload? (wireType : Nat) : Front (payload? wireType) := by
  unfold payload?
  split
  · exact (front_varint? 10).map fun n => Payload.varint (n % 0x10000000000000000)
  · exact (front_split? 8).map Payload.fixed64
  · exact front_delimited?.map Payload.delimited
  · exact (front_split? 4).map Payload.fixed32
  · exact .none

/-- What a tag with this number and wire type introduces, and what follows. -/
def tagged? (number wireType : Nat) (bytes : List UInt8) : Option (Item × List UInt8) :=
  if wireType = 3 then some (.startGroup number, bytes)
  else if wireType = 4 then some (.endGroup number, bytes)
  else (payload? wireType bytes).map (Prod.map (fun p => .field ⟨number, p⟩) id)

/-- An item is a tag and what the tag announces. -/
theorem item?_eq (bytes : List UInt8) :
    item? bytes = tag? bytes >>= fun x => tagged? x.1 x.2.1 x.2.2 := by
  unfold item?
  congr 1
  funext ⟨number, wireType, rest⟩
  unfold tagged?
  dsimp only
  -- A group starts or ends, or the tag announces a payload.
  split
  · rfl
  · rfl
  · rename_i hstart hend
    rw [if_neg hstart, if_neg hend, Option.map_eq_bind]
    rfl

theorem tag?_eq (bytes : List UInt8) : tag? bytes = varint? 5 bytes >>= fun x =>
    if x.1 < 0x100000000 then some (x.1 / 8, x.1 % 8, x.2) else none := rfl

/-- An item says itself where it ends, so bytes behind it change nothing. -/
theorem front_item? : Front item? := by
  -- What a tag announces is read from the front, whichever case it is.
  have tagged (number wireType : Nat) : Front (tagged? number wireType) :=
    .ite (.pure _) (.ite (.pure _) ((front_payload? wireType).map _))
  have heq : item? = fun bytes => varint? 5 bytes >>= fun x =>
      if x.1 < 0x100000000 then tagged? (x.1 / 8) (x.1 % 8) x.2 else none := by
    funext bytes
    rw [item?_eq, tag?_eq, bind_assoc]
    congr 1
    funext x
    split <;> rfl
  rw [heq]
  exact (front_varint? 5).bind fun n =>
    Front.ite (p := n < 0x100000000) (tagged (n / 8) (n % 8)) .none

/-! ## Groups -/

/-- The bytes behind a group, from those behind its start. -/
def skipped? (depth number : Nat) (bytes : List UInt8) : Option (List UInt8) :=
  (skipGroup? depth number bytes).map Subtype.val

section Skip

variable {depth number : Nat} {bytes rest : List UInt8}

theorem skipped?_none (h : item? bytes = none) : skipped? depth number bytes = none := by
  unfold skipped?
  rw [skipGroup?]
  split <;> rename_i hitem <;> rw [h] at hitem <;> cases hitem
  rfl

theorem skipped?_endGroup {n : Nat} (h : item? bytes = some (.endGroup n, rest)) :
    skipped? depth number bytes = if n = number then some rest else none := by
  unfold skipped?
  rw [skipGroup?]
  split <;> rename_i hitem <;> rw [h] at hitem <;> cases hitem
  split <;> rfl

theorem skipped?_field {f : RawField} (h : item? bytes = some (.field f, rest)) :
    skipped? depth number bytes = skipped? depth number rest := by
  unfold skipped?
  rw [skipGroup?]
  split <;> rename_i hitem <;> rw [h] at hitem <;> cases hitem
  cases skipGroup? depth number rest <;> rfl

theorem skipped?_startGroup_zero {n : Nat} (h : item? bytes = some (.startGroup n, rest)) :
    skipped? 0 number bytes = none := by
  unfold skipped?
  rw [skipGroup?]
  split <;> rename_i hitem <;> rw [h] at hitem <;> cases hitem
  rfl

/-- A group that starts inside another one is skipped first. -/
theorem skipped?_startGroup {n : Nat} (h : item? bytes = some (.startGroup n, rest)) :
    skipped? (depth + 1) number bytes
      = (skipped? depth n rest).bind (skipped? (depth + 1) number) := by
  unfold skipped?
  rw [skipGroup?]
  -- The recursion goes by the item; here it is the start of a group.
  split <;> rename_i hitem <;> rw [h] at hitem <;> cases hitem
  dsimp only
  cases skipGroup? depth n rest with
  | none => rfl
  | some after =>
    obtain ⟨middle, shorter⟩ := after
    dsimp only [Option.map_some, Option.bind_some]
    cases skipGroup? (depth + 1) number middle <;> rfl

/-- A group that is skipped takes at least one byte. -/
theorem skipped?_length (h : skipped? depth number bytes = some rest) :
    rest.length < bytes.length := by
  obtain ⟨⟨after, shorter⟩, -, rfl⟩ := Option.map_eq_some_iff.mp h
  exact shorter

end Skip

/-- A group that is skipped is skipped with anything behind it too. -/
theorem front_skipped? {depth number : Nat} {bytes rest : List UInt8}
    (h : skipped? depth number bytes = some rest) (more : List UInt8) :
    skipped? depth number (bytes ++ more) = some (rest ++ more) := by
  induction hn : bytes.length using Nat.strongRecOn generalizing depth number bytes rest with
  | ind n ih =>
    subst hn
    cases hitem : item? bytes with
    | none => rw [skipped?_none hitem] at h; cases h
    | some x =>
      obtain ⟨item, after⟩ := x
      have shorter := item?_length hitem
      have hmore := front_item? _ _ _ hitem more
      cases item with
      | field f =>
        rw [skipped?_field hitem] at h
        rw [skipped?_field hmore]
        exact ih _ shorter h rfl
      | endGroup n =>
        rw [skipped?_endGroup hitem] at h
        rw [skipped?_endGroup hmore]
        split at h
        · rename_i hnumber
          cases h
          exact if_pos hnumber
        · cases h
      | startGroup n =>
        cases depth with
        | zero => rw [skipped?_startGroup_zero hitem] at h; cases h
        | succ inner =>
          rw [skipped?_startGroup hitem] at h
          rw [skipped?_startGroup hmore]
          -- The inner group is shorter, and what is behind it is shorter still.
          obtain ⟨middle, hinner, houter⟩ := Option.bind_eq_some_iff.mp h
          have hmiddle := skipped?_length hinner
          rw [ih _ shorter hinner rfl, Option.bind_some]
          exact ih _ (Nat.lt_trans hmiddle shorter) houter rfl

/-! ## Messages -/

section Scan

variable {depth : Nat} {bytes rest : List UInt8}

theorem scan_nil : scan depth [] = .done := by rw [scan, if_pos rfl]

theorem ne_nil_of_item? {i : Item} (h : item? bytes = some (i, rest)) : bytes ≠ [] := by
  rintro rfl
  exact absurd (item?_length h) (Nat.not_lt_zero _)

theorem scan_none (hne : bytes ≠ []) (h : item? bytes = none) : scan depth bytes = .corrupt := by
  rw [scan, if_neg hne]
  split <;> rename_i hitem <;> rw [h] at hitem <;> cases hitem

/-- An end without a start is corrupt. -/
theorem scan_endGroup {n : Nat} (h : item? bytes = some (.endGroup n, rest)) :
    scan depth bytes = .corrupt := by
  rw [scan, if_neg (ne_nil_of_item? h)]
  split <;> rename_i hitem <;> rw [h] at hitem <;> cases hitem

/-- A field is kept, unless its number is zero. -/
theorem scan_field {f : RawField} (h : item? bytes = some (.field f, rest)) :
    scan depth bytes = if f.number = 0 then .corrupt else (scan depth rest).cons f := by
  rw [scan, if_neg (ne_nil_of_item? h)]
  split <;> rename_i hitem <;> rw [h] at hitem <;> cases hitem
  rfl

theorem scan_startGroup_zero {n : Nat} (h : item? bytes = some (.startGroup n, rest)) :
    scan 0 bytes = .corrupt := by
  rw [scan, if_neg (ne_nil_of_item? h)]
  -- All ways to go on are corrupt but the one for a field, and this is not one.
  split <;> rename_i hitem <;> rw [h] at hitem
  cases hitem

/-- A group is skipped whole, and it must be closed. -/
theorem scan_startGroup {n : Nat} (h : item? bytes = some (.startGroup n, rest)) :
    scan (depth + 1) bytes = if n = 0 then .corrupt
      else ((skipped? depth n rest).map (scan (depth + 1))).getD .corrupt := by
  unfold skipped?
  rw [scan, if_neg (ne_nil_of_item? h)]
  split <;> rename_i hitem <;> rw [h] at hitem <;> cases hitem
  dsimp only
  cases skipGroup? depth n rest <;> rfl

end Scan

/-- **An intact message in front of other bytes.** -/
theorem scan_append {depth : Nat} {front : List UInt8} (h : (scan depth front).intact = true)
    (bytes : List UInt8) :
    scan depth (front ++ bytes)
      = ⟨(scan depth front).fields ++ (scan depth bytes).fields, (scan depth bytes).intact⟩ := by
  induction hn : front.length using Nat.strongRecOn generalizing front with
  | ind n ih =>
    subst hn
    by_cases hne : front = []
    · rw [hne, scan_nil]
      rfl
    cases hitem : item? front with
    | none => rw [scan_none hne hitem] at h; cases h
    | some x =>
      obtain ⟨item, after⟩ := x
      have shorter := item?_length hitem
      have hmore := front_item? _ _ _ hitem bytes
      -- The first item is read alike, with more bytes behind it or without.
      cases item with
      | endGroup n => rw [scan_endGroup hitem] at h; cases h
      | field f =>
        rw [scan_field hitem] at h ⊢
        rw [scan_field hmore]
        split at h
        · cases h
        · rename_i hnumber
          rw [if_neg hnumber, if_neg hnumber, ih _ shorter h rfl]
          rfl
      | startGroup n =>
        cases depth with
        | zero => rw [scan_startGroup_zero hitem] at h; cases h
        | succ inner =>
          rw [scan_startGroup hitem] at h ⊢
          rw [scan_startGroup hmore]
          split at h
          · cases h
          · rename_i hnumber
            rw [if_neg hnumber, if_neg hnumber]
            -- A group must end in the front part, for otherwise that one would be corrupt.
            cases hskip : skipped? inner n after with
            | none => rw [hskip] at h; cases h
            | some behind =>
              rw [hskip] at h
              rw [front_skipped? hskip]
              exact ih _ (Nat.lt_trans (skipped?_length hskip) shorter) h rfl

end SchemaRegistry.Wire

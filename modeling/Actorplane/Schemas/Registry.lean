import Actorplane.Schemas.Codec
import Actorplane.Schemas.Layouts

/-!
# Identity of registered schemas

Staging one schema keeps the map keyed by name and version, numbered by
distinct ids below the next one, and within the capacity. A batch is accepted
exactly when its layouts agree with each other and with the registered ones and
the distinct roots fit; so two batches that fit together may come in any order.
-/

namespace Actorplane
namespace SchemaRegistry

/-- What staging keeps of the map and of the next id. -/
structure Kept (max : ℕ) (items : SchemaItems) (next : UInt32) : Prop where
  limit : max ≤ 65536
  few : items.keys.length ≤ max
  count : next.toNat = items.keys.length + 1
  keyed : ∀ {k id s}, items.lookup k = some (id, s) → s.key = k
  issued : ∀ {k id s}, items.lookup k = some (id, s) → id.toNat < next.toNat
  distinct : ∀ {k k' id s s'}, items.lookup k = some (id, s) → items.lookup k' = some (id, s') →
    k = k'

variable {max : ℕ} {items items' : SchemaItems} {next next' : UInt32} {s : Schema}
  {batch : List Schema} {ids : List UInt32}

/-- Nothing registered changes. -/
def Extends (items items' : SchemaItems) : Prop :=
  ∀ k v, items.lookup k = some v → items'.lookup k = some v

theorem Extends.trans {items'' : SchemaItems} (h : Extends items items')
    (h' : Extends items' items'') : Extends items items'' :=
  fun k v hk => h' k v (h k v hk)

/-- The keys of the map together with those of a batch. -/
def roots (items : SchemaItems) (batch : List Schema) : Finset SchemaKey :=
  items.keys.toFinset ∪ (batch.map Schema.key).toFinset

theorem card_keys (items : SchemaItems) : items.keys.toFinset.card = items.keys.length :=
  List.toFinset_card_of_nodup items.keys_nodup

theorem mem_keys_iff {k : SchemaKey} : k ∈ items.keys ↔ ∃ v, items.lookup k = some v := by
  rw [← AList.mem_keys, ← AList.lookup_isSome, Option.isSome_iff_exists]

theorem keys_insert {k : SchemaKey} {v : UInt32 × Schema} (h : items.lookup k = none) :
    (AList.insert k v items).keys = k :: items.keys := by
  have fresh : k ∉ items := AList.lookup_eq_none.mp h
  rw [AList.keys, AList.entries_insert_of_notMem fresh]
  rfl

theorem checkedNext_ok (h : checkedNext next = .ok next') : next'.toNat = next.toNat + 1 := by
  unfold checkedNext at h
  split at h
  next small =>
    cases h
    rw [UInt32.toNat_add]
    exact Nat.mod_eq_of_lt small
  next => cases h

/-! ## One schema -/

/-- A schema already there keeps its id; a new one takes the next. -/
theorem stageOne_ok {id : UInt32} (kept : Kept max items next)
    (h : stageOne max s items next = .ok (id, items', next')) :
    Kept max items' next' ∧ items'.lookup s.key = some (id, s) ∧ Extends items items' ∧
      ∀ k, k ≠ s.key → items'.lookup k = items.lookup k := by
  unfold stageOne at h
  cases hk : items.lookup s.key with
  | some v =>
    obtain ⟨old, layout⟩ := v
    rw [hk] at h
    dsimp only at h
    split at h
    next same =>
      cases h
      subst same
      exact ⟨kept, hk, fun _ _ found => found, fun _ _ => rfl⟩
    next => cases h
  | none =>
    rw [hk] at h
    dsimp only at h
    split at h
    next => cases h
    next room =>
      cases hn : checkedNext next with
      | error e =>
        rw [hn] at h
        cases h
      | ok n =>
        rw [hn] at h
        cases h
        rw [s.normalizedClone_eq]
        have counted := checkedNext_ok hn
        have keys := @keys_insert items s.key (next, s) hk
        refine ⟨⟨kept.limit, ?_, ?_, ?_, ?_, ?_⟩, ?_, ?_, ?_⟩
        · rw [keys, List.length_cons]
          omega
        · rw [keys, List.length_cons, counted, kept.count]
        · intro k id t found
          rw [Assoc.lookup_insert_ite] at found
          split at found
          next here =>
            cases found
            exact here.symm
          next => exact kept.keyed found
        · intro k id t found
          rw [Assoc.lookup_insert_ite] at found
          split at found
          next =>
            cases found
            omega
          next =>
            have below := kept.issued found
            omega
        · intro k k' id t t' found found'
          rw [Assoc.lookup_insert_ite] at found found'
          split at found
          next here =>
            cases found
            split at found'
            next here' => rw [here, here']
            next =>
              have below := kept.issued found'
              omega
          next =>
            split at found'
            next =>
              cases found'
              have below := kept.issued found
              omega
            next => exact kept.distinct found found'
        · rw [Assoc.lookup_insert_ite, if_pos rfl]
        · intro k v found
          rw [Assoc.lookup_insert_ite]
          split
          next here =>
            subst here
            rw [hk] at found
            cases found
          next => exact found
        · intro k other
          rw [Assoc.lookup_insert_ite, if_neg other]

theorem stageOne_succeeds (kept : Kept max items next)
    (agrees : ∀ id old, items.lookup s.key = some (id, old) → old = s)
    (room : items.lookup s.key = none → items.keys.length < max) :
    ∃ out, stageOne max s items next = .ok out := by
  unfold stageOne
  cases hk : items.lookup s.key with
  | some v =>
    obtain ⟨id, old⟩ := v
    refine ⟨(id, items, next), ?_⟩
    dsimp only
    rw [if_pos (agrees id old hk)]
  | none =>
    have free := room hk
    have small : next.toNat + 1 < 2 ^ 32 := by
      have limit := kept.limit
      rw [kept.count]
      omega
    have count : checkedNext next = .ok (next + 1) := if_pos small
    dsimp only
    rw [if_neg (Nat.not_le.mpr free), count]
    exact ⟨_, rfl⟩

/-! ## A batch -/

/-- Each schema of the batch has its id in the map. -/
def Numbered (items : SchemaItems) (batch : List Schema) (ids : List UInt32) : Prop :=
  List.Forall₂ (fun s id => items.lookup s.key = some (id, s)) batch ids

theorem Numbered.mem (h : Numbered items batch ids) (hs : s ∈ batch) :
    ∃ id, items.lookup s.key = some (id, s) := by
  induction h with
  | nil => cases hs
  | @cons t id batch ids found _ ih =>
    rcases List.mem_cons.mp hs with rfl | later
    · exact ⟨id, found⟩
    · exact ih later

/-- What a staged batch leaves, by induction on the batch. -/
theorem stage_ok (kept : Kept max items next)
    (h : stage max batch items next = .ok (ids, items', next')) :
    Kept max items' next' ∧ Numbered items' batch ids ∧ Extends items items' ∧
      ∀ k, k ∉ batch.map Schema.key → items'.lookup k = items.lookup k := by
  induction batch generalizing items next ids with
  | nil =>
    cases h
    exact ⟨kept, .nil, fun _ _ found => found, fun _ _ => rfl⟩
  | cons s batch ih =>
    cases h₁ : stageOne max s items next with
    | error e =>
      rw [stage, h₁] at h
      cases h
    | ok out =>
      obtain ⟨id, mid, between⟩ := out
      cases h₂ : stage max batch mid between with
      | error e =>
        simp only [stage, h₁, bind, Except.bind, h₂] at h
        cases h
      | ok out =>
        obtain ⟨rest, last, upTo⟩ := out
        simp only [stage, h₁, bind, Except.bind, h₂] at h
        cases h
        obtain ⟨kept₁, found, extend₁, others₁⟩ := stageOne_ok kept h₁
        obtain ⟨kept₂, numbered, extend₂, others₂⟩ := ih kept₁ h₂
        refine ⟨kept₂, .cons (extend₂ _ _ found) numbered, extend₁.trans extend₂, ?_⟩
        intro k outside
        rw [List.map_cons, List.mem_cons, not_or] at outside
        rw [others₂ k outside.2, others₁ k outside.1]

theorem stage_keys (kept : Kept max items next)
    (h : stage max batch items next = .ok (ids, items', next')) :
    items'.keys.toFinset = roots items batch := by
  obtain ⟨_, numbered, extend, others⟩ := stage_ok kept h
  ext k
  rw [roots, Finset.mem_union, List.mem_toFinset, List.mem_toFinset, List.mem_toFinset]
  constructor
  · intro there
    by_cases inside : k ∈ batch.map Schema.key
    · exact .inr inside
    · rw [mem_keys_iff, others k inside] at there
      exact .inl (mem_keys_iff.mpr there)
  · rintro (there | inside)
    · obtain ⟨v, found⟩ := mem_keys_iff.mp there
      exact mem_keys_iff.mpr ⟨v, extend k v found⟩
    · obtain ⟨s, hs, rfl⟩ := List.mem_map.mp inside
      obtain ⟨id, found⟩ := numbered.mem hs
      exact mem_keys_iff.mpr ⟨_, found⟩

theorem stage_succeeds (kept : Kept max items next)
    (agrees : ∀ s ∈ batch, ∀ id old, items.lookup s.key = some (id, old) → old = s)
    (consistent : Consistent batch) (fits : (roots items batch).card ≤ max) :
    ∃ out, stage max batch items next = .ok out := by
  induction batch generalizing items next with
  | nil => exact ⟨_, rfl⟩
  | cons s batch ih =>
    have room : items.lookup s.key = none → items.keys.length < max := by
      intro fresh
      have absent : s.key ∉ items.keys.toFinset := by
        rw [List.mem_toFinset, mem_keys_iff]
        rintro ⟨v, found⟩
        rw [fresh] at found
        cases found
      have larger : insert s.key items.keys.toFinset ⊆ roots items (s :: batch) := by
        intro k hk
        rw [Finset.mem_insert] at hk
        rw [roots, Finset.mem_union, List.map_cons, List.toFinset_cons, Finset.mem_insert]
        rcases hk with rfl | hk
        · exact .inr (.inl rfl)
        · exact .inl hk
      have count := Finset.card_le_card larger
      rw [Finset.card_insert_of_notMem absent, card_keys] at count
      omega
    obtain ⟨⟨id, mid, between⟩, h₁⟩ :=
      stageOne_succeeds kept (agrees s List.mem_cons_self) room
    obtain ⟨kept₁, found, extend₁, others₁⟩ := stageOne_ok kept h₁
    have agrees₁ : ∀ t ∈ batch, ∀ id old, mid.lookup t.key = some (id, old) → old = t := by
      intro t ht id' old hold
      by_cases same : t.key = s.key
      · rw [same, found] at hold
        cases hold
        exact consistent s List.mem_cons_self t (List.mem_cons_of_mem s ht) same.symm
      · rw [others₁ t.key same] at hold
        exact agrees t (List.mem_cons_of_mem s ht) id' old hold
    have union : roots mid batch ⊆ roots items (s :: batch) := by
      intro k hk
      rw [roots, Finset.mem_union, List.mem_toFinset, List.mem_toFinset] at hk
      rw [roots, Finset.mem_union, List.mem_toFinset, List.mem_toFinset, List.map_cons,
        List.mem_cons]
      rcases hk with hk | hk
      · by_cases same : k = s.key
        · exact .inr (.inl same)
        · rw [mem_keys_iff, others₁ k same] at hk
          exact .inl (mem_keys_iff.mpr hk)
      · exact .inr (.inr hk)
    have tail : Consistent batch := consistent.subset (List.subset_cons_self s batch)
    obtain ⟨⟨rest, last, upTo⟩, h₂⟩ :=
      ih kept₁ agrees₁ tail ((Finset.card_le_card union).trans fits)
    refine ⟨(id :: rest, last, upTo), ?_⟩
    simp only [stage, h₁, bind, Except.bind, h₂]

/-! ## Calls -/

variable {r : SchemaRegistry} {id : UInt32}

/-- `s` is registered under `id`. -/
def Registered (r : SchemaRegistry) (id : UInt32) (s : Schema) : Prop :=
  r.items.lookup s.key = some (id, s)

/-- Every layout that occurs in the registry, as a root or nested in one. -/
def layouts (r : SchemaRegistry) : List Schema := (schemas r.items).flatMap Schema.parts

/-- What every call keeps of a registry. -/
structure Sound (r : SchemaRegistry) : Prop where
  kept : Kept r.max r.items r.next
  valid : ∀ {id s}, r.Registered id s → s.validate = .ok ()
  consistent : Consistent r.layouts

theorem mem_schemas {s : Schema} :
    s ∈ schemas items ↔ ∃ k id, items.lookup k = some (id, s) := by
  simp only [schemas, List.mem_map, Sigma.exists]
  constructor
  · rintro ⟨k, ⟨id, t⟩, there, rfl⟩
    exact ⟨k, id, AList.mem_lookup_iff.mpr there⟩
  · rintro ⟨k, id, found⟩
    exact ⟨k, (id, s), AList.mem_lookup_iff.mp found, rfl⟩

theorem Kept.mem_schemas (kept : Kept max items next) :
    s ∈ schemas items ↔ ∃ id, items.lookup s.key = some (id, s) := by
  rw [SchemaRegistry.mem_schemas]
  constructor
  · rintro ⟨k, id, found⟩
    have key := kept.keyed found
    subst key
    exact ⟨id, found⟩
  · rintro ⟨id, found⟩
    exact ⟨s.key, id, found⟩

theorem validateAll_ok : validateAll batch = .ok () ↔ ∀ s ∈ batch, s.validate = .ok () := by
  induction batch with
  | nil => simp [validateAll]
  | cons s batch ih =>
    rw [validateAll, List.forall_mem_cons, ← ih]
    cases s.validate with
    | error e =>
      constructor
      · intro h
        cases h
      · intro h
        cases h.1
    | ok u =>
      constructor
      · intro h
        exact ⟨rfl, h⟩
      · intro h
        exact h.2

/-- What a batch must satisfy to be accepted. -/
structure Acceptable (r : SchemaRegistry) (batch : List Schema) : Prop where
  short : batch.length ≤ r.max
  valid : ∀ s ∈ batch, s.validate = .ok ()
  consistent : Consistent (batch.flatMap Schema.parts ++ r.layouts)
  fits : (roots r.items batch).card ≤ r.max

theorem subset_parts (batch : List Schema) : batch ⊆ batch.flatMap Schema.parts :=
  fun s hs => List.mem_flatMap.mpr ⟨s, hs, s.mem_parts⟩

theorem nested_ok {nested : Seen} (h : collectAll batch ∅ = .ok nested) :
    Records nested (batch.flatMap Schema.parts) :=
  (collectAll_gathers batch ∅ [] records_empty).1 nested h

/-- A batch that gets through satisfies the conditions, and is staged. -/
theorem prepare_ok (sound : r.Sound) {out : List UInt32 × SchemaItems × UInt32}
    (h : r.prepare batch = .ok out) :
    r.Acceptable batch ∧ stage r.max batch r.items r.next = .ok out := by
  unfold prepare at h
  split at h
  next => cases h
  next short =>
    cases hv : validateAll batch with
    | error e =>
      rw [hv] at h
      cases h
    | ok u =>
      cases hn : collectAll batch ∅ with
      | error e =>
        rw [hv, hn] at h
        cases h
      | ok nested =>
        cases ha : collectAll (schemas r.items) nested with
        | error e =>
          simp only [hv, hn, ha, bind, Except.bind] at h
          cases h
        | ok all =>
          simp only [hv, hn, ha, bind, Except.bind] at h
          have gathered :=
            (collectAll_gathers (schemas r.items) nested _ (nested_ok hn)).1 all ha
          obtain ⟨ids, staged, next⟩ := out
          refine ⟨⟨Nat.not_lt.mp short, validateAll_ok.mp hv, gathered.consistent, ?_⟩, h⟩
          rw [← stage_keys sound.kept h, card_keys]
          exact (stage_ok sound.kept h).1.few

theorem prepare_succeeds (sound : r.Sound) (acceptable : r.Acceptable batch) :
    ∃ out, r.prepare batch = .ok out := by
  have whole := acceptable.consistent
  have own : Consistent (batch.flatMap Schema.parts) :=
    whole.subset (List.subset_append_left _ _)
  obtain ⟨nested, hn⟩ := (collectAll_gathers batch ∅ [] records_empty).2 own
  obtain ⟨all, ha⟩ := (collectAll_gathers (schemas r.items) nested _ (nested_ok hn)).2 whole
  have agrees : ∀ s ∈ batch, ∀ id old, r.items.lookup s.key = some (id, old) → old = s := by
    intro s hs id old found
    have key := sound.kept.keyed found
    have there : old ∈ schemas r.items := mem_schemas.mpr ⟨s.key, id, found⟩
    exact whole old (List.mem_append_right _ (subset_parts _ there)) s
      (List.mem_append_left _ (subset_parts batch hs)) key
  obtain ⟨out, staged⟩ := stage_succeeds sound.kept agrees (own.subset (subset_parts batch))
    acceptable.fits
  refine ⟨out, ?_⟩
  unfold prepare
  rw [if_neg (Nat.not_lt.mpr acceptable.short), validateAll_ok.mpr acceptable.valid]
  simp only [hn, ha, bind, Except.bind, staged]

/-- A batch is accepted exactly when it is acceptable. -/
theorem registerBatch_ok_iff (sound : r.Sound) :
    (∃ ids, (r.registerBatch batch).1 = .ok ids) ↔ r.Acceptable batch := by
  unfold registerBatch
  constructor
  · rintro ⟨ids, h⟩
    cases hp : r.prepare batch with
    | error e =>
      rw [hp] at h
      cases h
    | ok out => exact (prepare_ok sound hp).1
  · intro acceptable
    obtain ⟨⟨ids, staged, next⟩, hp⟩ := prepare_succeeds sound acceptable
    exact ⟨ids, by rw [hp]⟩

theorem registerBatch_error {e : SchemaError} (h : (r.registerBatch batch).1 = .error e) :
    (r.registerBatch batch).2 = r := by
  unfold registerBatch at h ⊢
  cases hp : r.prepare batch with
  | error e => rfl
  | ok out =>
    rw [hp] at h
    cases h

/-- What an accepted batch leaves: the roots are the old ones and those of the batch. -/
theorem registerBatch_ok (sound : r.Sound) (h : (r.registerBatch batch).1 = .ok ids) :
    (r.registerBatch batch).2.Sound ∧ (r.registerBatch batch).2.max = r.max ∧
      Numbered (r.registerBatch batch).2.items batch ids ∧
      Extends r.items (r.registerBatch batch).2.items ∧
      (∀ s, s ∈ schemas (r.registerBatch batch).2.items ↔ s ∈ schemas r.items ∨ s ∈ batch) ∧
      (r.registerBatch batch).2.items.keys.toFinset = roots r.items batch := by
  unfold registerBatch at h ⊢
  cases hp : r.prepare batch with
  | error e =>
    rw [hp] at h
    cases h
  | ok out =>
    obtain ⟨ids', staged, next⟩ := out
    rw [hp] at h
    cases h
    obtain ⟨acceptable, run⟩ := prepare_ok sound hp
    obtain ⟨kept, numbered, extend, others⟩ := stage_ok sound.kept run
    have members : ∀ s, s ∈ schemas staged ↔ s ∈ schemas r.items ∨ s ∈ batch := by
      intro s
      rw [kept.mem_schemas, sound.kept.mem_schemas]
      constructor
      · rintro ⟨id, found⟩
        by_cases inside : s.key ∈ batch.map Schema.key
        · obtain ⟨t, ht, key⟩ := List.mem_map.mp inside
          obtain ⟨id', found'⟩ := numbered.mem ht
          rw [key, found] at found'
          cases found'
          exact .inr ht
        · rw [others s.key inside] at found
          exact .inl ⟨id, found⟩
      · rintro (⟨id, found⟩ | hs)
        · exact ⟨id, extend s.key _ found⟩
        · exact numbered.mem hs
    refine ⟨⟨kept, ?_, ?_⟩, rfl, numbered, extend, members, stage_keys sound.kept run⟩
    · intro id s registered
      rcases (members s).mp (kept.mem_schemas.mpr ⟨id, registered⟩) with old | new
      · obtain ⟨id', found⟩ := sound.kept.mem_schemas.mp old
        exact sound.valid found
      · exact acceptable.valid s new
    · apply acceptable.consistent.subset
      intro a ha
      obtain ⟨s, hs, part⟩ := List.mem_flatMap.mp ha
      rcases (members s).mp hs with old | new
      · exact List.mem_append_right _ (List.mem_flatMap.mpr ⟨s, old, part⟩)
      · exact List.mem_append_left _ (List.mem_flatMap.mpr ⟨s, new, part⟩)

theorem registerBatch_step (sound : r.Sound) (batch : List Schema) :
    (r.registerBatch batch).2.Sound ∧ (r.registerBatch batch).2.max = r.max ∧
      Extends r.items (r.registerBatch batch).2.items := by
  cases h : (r.registerBatch batch).1 with
  | error e =>
    rw [registerBatch_error h]
    exact ⟨sound, rfl, fun _ _ found => found⟩
  | ok ids =>
    obtain ⟨sound', same, _, extend, _⟩ := registerBatch_ok sound h
    exact ⟨sound', same, extend⟩

/-- Over any sequence of calls, by induction on the sequence. -/
theorem registerAll_steps (batches : List (List Schema)) (sound : r.Sound) :
    (registerAll batches r).Sound ∧ (registerAll batches r).max = r.max ∧
      Extends r.items (registerAll batches r).items := by
  induction batches generalizing r with
  | nil => exact ⟨sound, rfl, fun _ _ found => found⟩
  | cons batch batches ih =>
    obtain ⟨sound₁, same₁, extend₁⟩ := registerBatch_step sound batch
    obtain ⟨sound₂, same₂, extend₂⟩ := ih sound₁
    exact ⟨sound₂, same₂.trans same₁, extend₁.trans extend₂⟩

theorem new_sound (h : SchemaRegistry.new max = .ok r) : r.Sound ∧ r.max = max := by
  unfold SchemaRegistry.new at h
  split at h
  next => cases h
  next bad =>
    cases h
    rw [not_or, Nat.not_lt] at bad
    have whole : Min.min max 65536 = max := Nat.min_eq_left bad.2
    refine ⟨⟨⟨?_, Nat.zero_le _, rfl, ?_, ?_, ?_⟩, ?_, ?_⟩, whole⟩
    · exact Nat.min_le_right _ _
    · intro k id s found
      cases found
    · intro k id s found
      cases found
    · intro k k' id s s' found
      cases found
    · intro id s found
      cases found
    · intro a ha
      cases ha

theorem Registered.unique {id id' : UInt32} (h : r.Registered id s) (h' : r.Registered id' s) :
    id = id' := by
  unfold Registered at h h'
  rw [h] at h'
  cases h'
  rfl

theorem Sound.injective {s' : Schema} (sound : r.Sound) (h : r.Registered id s)
    (h' : r.Registered id s') : s = s' := by
  have key := sound.kept.distinct h h'
  unfold Registered at h h'
  rw [key, h'] at h
  cases h
  rfl

/-- `schema` returns the layout registered under the id. -/
theorem Sound.schema_eq_ok (sound : r.Sound) : r.schema id = .ok s ↔ r.Registered id s := by
  unfold SchemaRegistry.schema
  cases hf : r.items.entries.find? fun e => e.2.1 == id with
  | none =>
    constructor
    · intro h
      cases h
    · intro registered
      have there := AList.mem_lookup_iff.mp registered
      have missed := List.find?_eq_none.mp hf _ there
      simp at missed
  | some e =>
    obtain ⟨k, id', t⟩ := e
    have here : id' = id := by simpa using List.find?_some hf
    have found : r.items.lookup k = some (id', t) :=
      AList.mem_lookup_iff.mpr (List.mem_of_find?_eq_some hf)
    have key := sound.kept.keyed found
    subst here
    subst key
    constructor
    · intro h
      cases h
      exact found
    · intro registered
      rw [sound.injective registered found]

/-- Registering a registered schema changes nothing and returns its id. -/
theorem Sound.register_again (sound : r.Sound) (h : r.Registered id s) :
    r.register s = (.ok (some id), r) := by
  have there : s ∈ schemas r.items := sound.kept.mem_schemas.mpr ⟨id, h⟩
  have known : s.key ∈ r.items.keys := mem_keys_iff.mpr ⟨_, h⟩
  have nonempty : 0 < r.items.keys.length := List.length_pos_of_mem known
  have few := sound.kept.few
  have acceptable : r.Acceptable [s] := by
    refine ⟨?_, ?_, ?_, ?_⟩
    · rw [List.length_singleton]
      omega
    · intro t ht
      rw [List.mem_singleton.mp ht]
      exact sound.valid h
    · apply sound.consistent.subset
      intro a ha
      rcases List.mem_append.mp ha with ha | ha
      · obtain ⟨t, ht, part⟩ := List.mem_flatMap.mp ha
        rw [List.mem_singleton.mp ht] at part
        exact List.mem_flatMap.mpr ⟨s, there, part⟩
      · exact ha
    · have same : roots r.items [s] = r.items.keys.toFinset := by
        unfold roots
        apply Finset.union_eq_left.mpr
        intro k hk
        rw [List.mem_toFinset, List.map_singleton, List.mem_singleton] at hk
        rw [hk, List.mem_toFinset]
        exact known
      rw [same, card_keys]
      exact few
  obtain ⟨⟨ids, staged, next⟩, hp⟩ := prepare_succeeds sound acceptable
  have run := (prepare_ok sound hp).2
  unfold Registered at h
  have one : stageOne r.max s r.items r.next = .ok (id, r.items, r.next) := by
    unfold stageOne
    rw [h]
    dsimp only
    rw [if_pos rfl]
  simp only [stage, one, bind, Except.bind] at run
  cases run
  unfold register registerBatch
  rw [hp]
  rfl

/-! ## Two batches -/

/-- Two batches agree with each other and with the registry, and fit together. -/
structure Compatible (r : SchemaRegistry) (b b' : List Schema) : Prop where
  short : b.length ≤ r.max ∧ b'.length ≤ r.max
  valid : ∀ s, s ∈ b ∨ s ∈ b' → s.validate = .ok ()
  consistent : Consistent (b.flatMap Schema.parts ++ b'.flatMap Schema.parts ++ r.layouts)
  fits : (roots r.items b ∪ roots r.items b').card ≤ r.max

theorem Compatible.symm {b b' : List Schema} (h : r.Compatible b b') : r.Compatible b' b := by
  refine ⟨h.short.symm, fun s hs => h.valid s hs.symm, ?_, ?_⟩
  · apply h.consistent.subset
    intro a ha
    simp only [List.mem_append] at ha ⊢
    rcases ha with (ha | ha) | ha
    · exact .inl (.inr ha)
    · exact .inl (.inl ha)
    · exact .inr ha
  · rw [Finset.union_comm]
    exact h.fits

theorem roots_after {b b' : List Schema} (sound : r.Sound) (h : (r.registerBatch b).1 = .ok ids) :
    roots (r.registerBatch b).2.items b' = roots r.items b ∪ roots r.items b' := by
  have keys := (registerBatch_ok sound h).2.2.2.2.2
  unfold roots at keys ⊢
  rw [keys]
  ext k
  simp only [Finset.mem_union]
  tauto

/-- Both batches are accepted, one after the other, exactly when they are compatible. -/
theorem both_ok_iff {b b' : List Schema} (sound : r.Sound) :
    (∃ ids ids', (r.registerBatch b).1 = .ok ids ∧
      ((r.registerBatch b).2.registerBatch b').1 = .ok ids') ↔ r.Compatible b b' := by
  constructor
  · rintro ⟨ids, ids', h, h'⟩
    have first := (registerBatch_ok_iff sound).mp ⟨ids, h⟩
    obtain ⟨sound', same, _, _, members, _⟩ := registerBatch_ok sound h
    have second := (registerBatch_ok_iff sound').mp ⟨ids', h'⟩
    refine ⟨⟨first.short, same ▸ second.short⟩, ?_, ?_, ?_⟩
    · rintro s (hs | hs)
      · exact first.valid s hs
      · exact second.valid s hs
    · apply second.consistent.subset
      intro a ha
      rcases List.mem_append.mp ha with ha | ha
      · rcases List.mem_append.mp ha with ha | ha
        · obtain ⟨s, hs, part⟩ := List.mem_flatMap.mp ha
          exact List.mem_append_right _
            (List.mem_flatMap.mpr ⟨s, (members s).mpr (.inr hs), part⟩)
        · exact List.mem_append_left _ ha
      · obtain ⟨s, hs, part⟩ := List.mem_flatMap.mp ha
        exact List.mem_append_right _ (List.mem_flatMap.mpr ⟨s, (members s).mpr (.inl hs), part⟩)
    · rw [← roots_after sound h, ← same]
      exact second.fits
  · intro compatible
    have first : r.Acceptable b := by
      refine ⟨compatible.short.1, fun s hs => compatible.valid s (.inl hs), ?_, ?_⟩
      · apply compatible.consistent.subset
        intro a ha
        simp only [List.mem_append] at ha ⊢
        rcases ha with ha | ha
        · exact .inl (.inl ha)
        · exact .inr ha
      · exact (Finset.card_le_card Finset.subset_union_left).trans compatible.fits
    obtain ⟨ids, h⟩ := (registerBatch_ok_iff sound).mpr first
    obtain ⟨sound', same, _, _, members, _⟩ := registerBatch_ok sound h
    have second : (r.registerBatch b).2.Acceptable b' := by
      refine ⟨same.symm ▸ compatible.short.2, fun s hs => compatible.valid s (.inr hs), ?_, ?_⟩
      · apply compatible.consistent.subset
        intro a ha
        simp only [List.mem_append] at ha ⊢
        rcases ha with ha | ha
        · exact .inl (.inr ha)
        · obtain ⟨s, hs, part⟩ := List.mem_flatMap.mp ha
          rcases (members s).mp hs with old | new
          · exact .inr (List.mem_flatMap.mpr ⟨s, old, part⟩)
          · exact .inl (.inl (List.mem_flatMap.mpr ⟨s, new, part⟩))
      · rw [roots_after sound h, same]
        exact compatible.fits
    obtain ⟨ids', h'⟩ := (registerBatch_ok_iff sound').mpr second
    exact ⟨ids, ids', h, h'⟩

/-- What two accepted batches leave registered. -/
theorem both_members {b b' : List Schema} {ids' : List UInt32} (sound : r.Sound)
    (h : (r.registerBatch b).1 = .ok ids)
    (h' : ((r.registerBatch b).2.registerBatch b').1 = .ok ids') (s : Schema) :
    (∃ id, ((r.registerBatch b).2.registerBatch b').2.Registered id s) ↔
      (∃ id, r.Registered id s) ∨ s ∈ b ∨ s ∈ b' := by
  obtain ⟨sound₁, _, _, _, members₁, _⟩ := registerBatch_ok sound h
  obtain ⟨sound₂, _, _, _, members₂, _⟩ := registerBatch_ok sound₁ h'
  unfold Registered
  rw [← sound₂.kept.mem_schemas, members₂ s, members₁ s, sound.kept.mem_schemas, or_assoc]

end SchemaRegistry

/-- Identity of schemas over any sequence of batches. -/
theorem SchemaRegistry.identity {max : ℕ} {r₀ : SchemaRegistry}
    (h : SchemaRegistry.new max = .ok r₀) (batches : List (List Schema)) :
    let r := registerAll batches r₀
    (∀ batch e, (r.registerBatch batch).1 = .error e → (r.registerBatch batch).2 = r) ∧
    (∀ a ∈ r.layouts, ∀ b ∈ r.layouts, a.key = b.key → a = b) ∧
    (∀ id s s', r.Registered id s → r.Registered id s' → s = s') ∧
    (∀ id id' s, r.Registered id s → r.Registered id' s → id = id') ∧
    (∀ id s, r.schema id = .ok s ↔ r.Registered id s) ∧
    (∀ later id s, r.Registered id s → (registerAll later r).Registered id s ∧
      (registerAll later r).schema id = .ok s ∧
      ∀ s', (registerAll later r).Registered id s' → s' = s) ∧
    (∀ batch ids, (r.registerBatch batch).1 = .ok ids →
      List.Forall₂ (fun s id => (r.registerBatch batch).2.Registered id s ∧
        ∀ id', r.Registered id' s ∨ (r.registerBatch batch).2.Registered id' s → id' = id)
        batch ids) ∧
    (∀ id s, r.Registered id s → r.register s = (.ok (some id), r)) ∧
    r.len ≤ max ∧
    (∀ b b' : List Schema, (∃ ids ids', (r.registerBatch b).1 = .ok ids ∧
        ((r.registerBatch b).2.registerBatch b').1 = .ok ids') ↔ r.Compatible b b') ∧
    (∀ b b' : List Schema, r.Compatible b b' →
      (∃ ids ids', (r.registerBatch b').1 = .ok ids ∧
        ((r.registerBatch b').2.registerBatch b).1 = .ok ids') ∧
      ∀ s, (∃ id, ((r.registerBatch b).2.registerBatch b').2.Registered id s) ↔
        ∃ id, ((r.registerBatch b').2.registerBatch b).2.Registered id s) := by
  intro r
  obtain ⟨sound₀, whole⟩ := new_sound h
  obtain ⟨sound, same, _⟩ := registerAll_steps batches sound₀
  refine ⟨fun batch e => registerBatch_error, sound.consistent,
    fun id s s' => sound.injective, fun id id' s => Registered.unique,
    fun id s => sound.schema_eq_ok, ?_, ?_, fun id s => sound.register_again, ?_,
    fun b b' => both_ok_iff sound, ?_⟩
  · intro later id s registered
    obtain ⟨sound', _, extend⟩ := registerAll_steps later sound
    have still : (registerAll later r).Registered id s := extend s.key _ registered
    exact ⟨still, sound'.schema_eq_ok.mpr still, fun s' other => sound'.injective other still⟩
  · intro batch ids accepted
    obtain ⟨_, _, numbered, extend, _⟩ := registerBatch_ok sound accepted
    apply numbered.imp
    intro s id found
    refine ⟨found, ?_⟩
    rintro id' (old | new)
    · exact Registered.unique (extend s.key _ old) found
    · exact new.unique found
  · rw [← whole, ← same]
    exact sound.kept.few
  · intro b b' compatible
    obtain ⟨ids, ids', first, second⟩ := (both_ok_iff sound).mpr compatible
    have swapped := (both_ok_iff sound).mpr compatible.symm
    refine ⟨swapped, ?_⟩
    intro s
    obtain ⟨jds, jds', first', second'⟩ := swapped
    rw [both_members sound first second, both_members sound first' second', or_comm (a := s ∈ b)]

/-- The sample schema, registered once, keeps its id when it is registered again. -/
theorem SchemaRegistry.sample_identity :
    (registerAll [[sampleSchema.schema]] ⟨1, 1, ∅⟩).register sampleSchema.schema =
      (.ok (some 1), registerAll [[sampleSchema.schema]] ⟨1, 1, ∅⟩) := by
  have known : (registerAll [[sampleSchema.schema]] ⟨1, 1, ∅⟩).Registered 1 sampleSchema.schema := rfl
  exact (@SchemaRegistry.identity 1 ⟨1, 1, ∅⟩ rfl
    [[sampleSchema.schema]]).2.2.2.2.2.2.2.1 1 sampleSchema.schema known

end Actorplane

import Actorplane.Core.Ownership

/-!
# Services under the moves

Registered targets are present roots, leases name present children of their
owner, and the scopes of a record are not roots.
-/

namespace Actorplane

variable {world : ℕ} {nodes nodes' : List Node} {c c' : Core} {m : Move} {r : ActorRef} {n : Node}

/-- The generation is known, and while it is seated it has a parent. -/
def Scoped (nodes : List Node) (scope : ActorRef) : Prop :=
  ∃ n, nodes[scope.slot]? = some n ∧ scope.generation ≤ n.reference.generation ∧
    (n.reference = scope → n.parent ≠ none)

theorem Forward.scoped (h : Forward nodes nodes') {scope : ActorRef} (hs : Scoped nodes scope) :
    Scoped nodes' scope := by
  obtain ⟨n, hn, hg, hp⟩ := hs
  obtain ⟨n', hn', hf⟩ := h _ n hn
  refine ⟨n', hn', ?_⟩
  rcases hf with ⟨hr, hpar, -⟩ | hlt
  · rw [hr, hpar]
    exact ⟨hg, hp⟩
  · exact ⟨hg.trans hlt.le, fun hr => by rw [hr] at hlt; omega⟩

theorem Seated.scoped (h : Seated nodes r n) (hp : n.parent ≠ none) : Scoped nodes r :=
  ⟨n, h.1, by rw [h.2], fun _ => hp⟩

theorem Scoped.parent (h : Scoped nodes r) (hn : Seated nodes r n) : n.parent ≠ none := by
  obtain ⟨k, hk, -, hp⟩ := h
  have := hn.1.symm.trans hk
  cases this
  exact hp hn.2

structure Core.Serving (c : Core) : Prop where
  targets : ∀ s name, c.services.byTarget.lookup s = some name →
    ∃ n, Seated c.nodes s n ∧ n.parent = none ∧ n.state ≠ .stopping ∧ n.state ≠ .stopped
  leases : ∀ scope l, c.services.leases.lookup scope = some l →
    ∃ n, Seated c.nodes scope n ∧ n.parent = some l.owner ∧ n.state ≠ .stopping ∧
      n.state ≠ .stopped
  scopes : ∀ name record scope, c.services.records.lookup name = some record →
    scope ∈ record.scopes → Scoped c.nodes scope

theorem Core.Serving.keep (h : c.Serving) (ho : c.Owned world) (hs : Step world c m c')
    (heq : c'.services = c.services)
    (ht : ∀ r, m.stops r → c.services.byTarget.lookup r = none ∧
      c.services.leases.lookup r = none) : c'.Serving := by
  refine ⟨fun s name hn => ?_, fun scope l hl => ?_, fun name record scope hr hm => ?_⟩
  · rw [heq] at hn
    obtain ⟨n, hseat, hp, h1, h2⟩ := h.targets s name hn
    obtain ⟨n', hn', hp', -, h3⟩ := ho.stays hs (fun hst => by simp [(ht s hst).1] at hn)
      hseat h1 h2
    exact ⟨n', hn', hp'.trans hp, h3⟩
  · rw [heq] at hl
    obtain ⟨n, hseat, hp, h1, h2⟩ := h.leases scope l hl
    obtain ⟨n', hn', hp', -, h3⟩ := ho.stays hs (fun hst => by simp [(ht scope hst).2] at hl)
      hseat h1 h2
    exact ⟨n', hn', hp'.trans hp, h3⟩
  · exact (ho.forward hs).scoped (h.scopes name record scope (heq ▸ hr) hm)

theorem Core.Serving.step (h : c.Serving) (ho : c.Owned world) (hs : Step world c m c') :
    c'.Serving := by
  have hs' := hs
  cases hs
  case unserve services hsh =>
    refine ⟨fun s name hn => h.targets s name (hsh.targets s name hn),
      fun scope l hl => h.leases scope l (hsh.leases scope l hl), fun name record scope hr hm => ?_⟩
    obtain ⟨old, hold, -, hsub⟩ := hsh.records name record hr
    exact h.scopes name old scope hold (hsub scope hm)
  case lease scope n services lease hn hst hpar hp h1 h2 h3 =>
    have hseat : Seated (c.nodes.set scope.slot { n with state := .active }) scope
        { n with state := .active } :=
      (seated_set _ hn.1 (by rfl)).mpr (.inl ⟨rfl, rfl, hn⟩)
    refine ⟨fun s name hname => ?_, fun x l hl => ?_, fun name record x hr hm => ?_⟩
    · obtain ⟨k, hk, hkp, k1, k2⟩ := h.targets s name (h1 ▸ hname)
      obtain ⟨k', hk', hkp', -, k3⟩ := ho.stays hs' not_false hk k1 k2
      exact ⟨k', hk', hkp'.trans hkp, k3⟩
    · rw [h2, Assoc.lookup_insert_ite] at hl
      split_ifs at hl with hx
      · cases hl
        subst hx
        exact ⟨_, hseat, hpar, by simp, by simp⟩
      · obtain ⟨k, hk, hkp, k1, k2⟩ := h.leases x l hl
        obtain ⟨k', hk', hkp', -, k3⟩ := ho.stays hs' not_false hk k1 k2
        exact ⟨k', hk', hkp'.trans hkp, k3⟩
    · obtain ⟨old, hold, -, hsub⟩ := h3 name record hr
      rcases hsub x hm with hm | rfl
      · exact (ho.forward hs').scoped (h.scopes name old x hold hm)
      · exact hseat.scoped (by simp [hpar])
  case serve services target name n hn hp hst hst' h1 h2 h3 =>
    refine ⟨fun s name' hname => ?_, fun x l hl => h.leases x l (h2 ▸ hl),
      fun name' record x hr hm => ?_⟩
    · rw [h1, Assoc.lookup_insert_ite] at hname
      split_ifs at hname with hs
      · subst hs
        exact ⟨n, hn, hp, hst, hst'⟩
      · exact h.targets s name' hname
    · rcases h3 name' record hr with he | hold
      · simp [he] at hm
      · exact h.scopes name' record x hold hm
  case stop n b _ _ _ _ _ _ _ _ _ hsv hl _ =>
    refine h.keep ho hs' rfl ?_
    rintro q rfl
    exact ⟨hsv, hl⟩
  all_goals exact h.keep ho hs' rfl fun _ => False.elim

end Actorplane

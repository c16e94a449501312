import Actorplane.Core.Order

/-!
# Staged publications

A publication of a starting source waits in the table and in the staging list of
its actor. Both hold the same payload and port, in the order of acceptance.
-/

namespace Actorplane

variable {world : ℕ} {c c' : Core} {m : Move}

structure Core.Staging (c : Core) : Prop where
  held : ∀ id p, c.publications.entries.lookup id = some p → p.staged = true →
    Present c.nodes p.source ∧ ∃ b, c.boxes[p.source.slot]? = some b ∧
      ∃ s ∈ b.staged, s.publication = id
  data : ∀ (i : ℕ) (n : Node) (b : Box) (s : StagedOutput) (p : Publication),
    c.nodes[i]? = some n → c.boxes[i]? = some b → s ∈ b.staged →
    c.publications.entries.lookup s.publication = some p →
    p.source = n.reference ∧ p.staged = true ∧ p.stored = s.stored ∧ p.sourcePort = some s.port
  order : ∀ (i : ℕ) (b : Box), c.boxes[i]? = some b →
    (b.staged.map (·.publication)).Pairwise (· < ·)
  known : ∀ (i : ℕ) (b : Box) (s : StagedOutput), c.boxes[i]? = some b → s ∈ b.staged →
    s.publication < c.publications.nextId

/-- The same source, payload and staging. -/
def Publication.Same (p p' : Publication) : Prop :=
  p'.source = p.source ∧ p'.stored = p.stored ∧ p'.sourcePort = p.sourcePort ∧ p'.staged = p.staged

theorem staged_set {boxes : List Box} {i : ℕ} {b : Box} (b' : Box) (hb : boxes[i]? = some b)
    (hst : b'.staged = b.staged) (j : ℕ) :
    (boxes.set i b')[j]?.map Box.staged = boxes[j]?.map Box.staged := by
  rw [List.getElem?_set]
  split_ifs with hj hlt
  · subst hj
    simp [hb, hst]
  · exact absurd (List.getElem?_eq_some_iff.mp hb).1 (hj ▸ hlt)
  · rfl

/-- Moves that keep the staging lists and add nothing to the table. -/
theorem Core.Staging.keep (h : c.Staging) (ho : c.Owned world) (hs : Step world c m c')
    (hm : ∀ r, m ≠ .allocate r) (hstop : ∀ r, m.stops r → c.publications.queueOf r = [])
    (hq : c.publications.Sound)
    (hent : ∀ id p', c'.publications.entries.lookup id = some p' →
      ∃ p, c.publications.entries.lookup id = some p ∧ p.Same p')
    (hnext : c.publications.nextId ≤ c'.publications.nextId)
    (hbox : ∀ i : ℕ, c'.boxes[i]?.map Box.staged = c.boxes[i]?.map Box.staged) : c'.Staging := by
  have hold : ∀ (i : ℕ) (b' : Box), c'.boxes[i]? = some b' → ∃ b, c.boxes[i]? = some b ∧ b'.staged = b.staged := by
    intro i b' hb'
    have := hbox i
    rw [hb'] at this
    obtain ⟨b, hb, he⟩ := Option.map_eq_some_iff.mp this.symm
    exact ⟨b, hb, he.symm⟩
  refine ⟨fun id p' hp' hst => ?_, fun i n' b' s p' hn' hb' hs' hp' => ?_, fun i b' hb' => ?_,
    fun i b' s hb' hs' => ?_⟩
  · obtain ⟨p, hp, h1, -, -, h4⟩ := hent id p' hp'
    obtain ⟨hpres, b, hb, s, hs', hid⟩ := h.held id p hp (h4 ▸ hst)
    have hne : ¬m.stops p.source := fun hst => by
      have := (hq.queue p.source id).mpr ⟨p, hp, rfl⟩
      simp [hstop _ hst] at this
    have := hbox p.source.slot
    rw [hb] at this
    obtain ⟨b', hb', he⟩ := Option.map_eq_some_iff.mp this
    rw [h1]
    exact ⟨ho.present hs hne hpres, b', hb', s, he ▸ hs', hid⟩
  · obtain ⟨b, hb, he⟩ := hold i b' hb'
    have href := hs.references hm i
    rw [hn'] at href
    obtain ⟨n, hn, hr⟩ := Option.map_eq_some_iff.mp href.symm
    obtain ⟨p, hp, h1, h2, h3, h4⟩ := hent _ p' hp'
    obtain ⟨k1, k2, k3, k4⟩ := h.data i n b s p hn hb (he ▸ hs') hp
    exact ⟨h1.trans (k1.trans hr), h4.trans k2, h2.trans k3, h3.trans k4⟩
  · obtain ⟨b, hb, he⟩ := hold i b' hb'
    exact he ▸ h.order i b hb
  · obtain ⟨b, hb, he⟩ := hold i b' hb'
    exact (h.known i b s hb (he ▸ hs')).trans_le hnext

/-- A staging list keeps the outputs that the table still stages. -/
theorem Core.Staging.shrink (h : c.Staging) {i : ℕ} {b : Box} {kept : List StagedOutput}
    (hb : c.boxes[i]? = some b) (hsub : kept.Sublist b.staged) (hnodes : c'.nodes = c.nodes)
    (hboxes : c'.boxes = c.boxes.set i { b with staged := kept })
    (hnext : c.publications.nextId ≤ c'.publications.nextId)
    (hstill : ∀ id p, c'.publications.entries.lookup id = some p → p.staged = true →
      c.publications.entries.lookup id = some p ∧
        ∀ s ∈ b.staged, s.publication = id → s ∈ kept)
    (hlisted : ∀ (j : ℕ) (n : Node) (y : Box) (s : StagedOutput) (p : Publication),
      c.nodes[j]? = some n → c.boxes[j]? = some y → s ∈ y.staged → (j = i → s ∈ kept) →
      c'.publications.entries.lookup s.publication = some p →
      c.publications.entries.lookup s.publication = some p) : c'.Staging := by
  have hlt : i < c.boxes.length := (List.getElem?_eq_some_iff.mp hb).1
  have hbox : ∀ (j : ℕ) (y' : Box), c'.boxes[j]? = some y' →
      ∃ y, c.boxes[j]? = some y ∧ y'.staged.Sublist y.staged ∧ (j = i → y'.staged = kept) := by
    intro j y' hy'
    rw [hboxes, List.getElem?_set] at hy'
    split_ifs at hy' with hj
    · cases hy'
      exact ⟨b, hj ▸ hb, hsub, fun _ => rfl⟩
    · exact ⟨y', hy', .refl _, fun he => absurd he.symm hj⟩
  refine ⟨fun id p hp hst => ?_, fun j k y' s p hk hy' hs hp => ?_, fun j y' hy' => ?_,
    fun j y' s hy' hs => ?_⟩
  · obtain ⟨hold, hkept⟩ := hstill id p hp hst
    obtain ⟨hpres, y, hy, s, hs, hid⟩ := h.held id p hold hst
    rw [hnodes, hboxes]
    refine ⟨hpres, ?_⟩
    by_cases hi : i = p.source.slot
    · obtain rfl : b = y := Option.some.inj (hb.symm.trans (hi ▸ hy))
      exact ⟨{ b with staged := kept }, by simp [← hi, hlt], s, hkept s hs hid, hid⟩
    · exact ⟨y, by rw [List.getElem?_set_ne hi, hy], s, hs, hid⟩
  · rw [hnodes] at hk
    obtain ⟨y, hy, hsub, hkept⟩ := hbox j y' hy'
    have hs₀ : s ∈ y.staged := hsub.subset hs
    exact h.data j k y s p hk hy hs₀ (hlisted j k y s p hk hy hs₀ (fun hj => hkept hj ▸ hs) hp)
  · obtain ⟨y, hy, hsub, -⟩ := hbox j y' hy'
    exact (h.order j y hy).sublist (hsub.map _)
  · obtain ⟨y, hy, hsub, -⟩ := hbox j y' hy'
    exact (h.known j y s hy (hsub.subset hs)).trans_le hnext

/-- A fresh slot starts with an empty staging list. -/
theorem Core.Staging.allocate (h : c.Staging) (ho : c.Owned world) (hc : c.Columns)
    {r : ActorRef} {parent : Option ActorRef} (hf : FreshSlot c.nodes c.free r)
    (hnodes : c'.nodes = allocNodes c.nodes r parent)
    (hboxes : c'.boxes = put c.boxes r.slot ⟨[], [], false⟩)
    (hpublications : c'.publications = c.publications)
    (hpres : ∀ q, Present c.nodes q → Present c'.nodes q) : c'.Staging := by
  have hle := hf.le ho
  have hbox : ∀ i : ℕ, c'.boxes[i]? = if i = r.slot then some ⟨[], [], false⟩ else c.boxes[i]? := by
    rw [hboxes]
    exact put_get (hc.boxes ▸ hle) _
  refine ⟨fun id p hp hst => ?_, fun i k y s p hk hy hs hp => ?_, fun i y hy => ?_,
    fun i y s hy hs => ?_⟩
  · rw [hpublications] at hp
    obtain ⟨hpresent, y, hy, s, hs, hid⟩ := h.held id p hp hst
    refine ⟨hpres _ hpresent, y, ?_, s, hs, hid⟩
    rw [hbox, if_neg, hy]
    intro hslot
    obtain ⟨n, hn, -, hns⟩ := hpresent
    exact hns (hf.old_stopped ho (hslot ▸ hn.1)).1
  · rw [hbox] at hy
    split_ifs at hy with hi
    · cases hy
      cases hs
    · rw [hnodes, allocNodes_get hle, if_neg hi] at hk
      obtain ⟨k₀, hk₀, rfl⟩ := Option.map_eq_some_iff.mp hk
      rw [hpublications] at hp
      rw [(atParent_frame parent (.adopt r) (fun _ => ⟨rfl, rfl, rfl⟩) k₀).1]
      exact h.data i k₀ y s p hk₀ hy hs hp
  · rw [hbox] at hy
    split_ifs at hy with hi
    · cases hy
      exact List.Pairwise.nil
    · exact h.order i y hy
  · rw [hbox] at hy
    split_ifs at hy with hi
    · cases hy
      cases hs
    · rw [hpublications]
      exact h.known i y s hy hs

theorem Core.Staging.order_append (h : c.Staging) {i : ℕ} {b : Box} {s : StagedOutput}
    (hb : c.boxes[i]? = some b) (hs : s.publication = c.publications.nextId) :
    ((b.staged ++ [s]).map (·.publication)).Pairwise (· < ·) := by
  rw [List.map_append, List.pairwise_append]
  refine ⟨h.order i b hb, List.pairwise_singleton _ _, fun a ha z hz => ?_⟩
  obtain ⟨x, hx, rfl⟩ := List.mem_map.mp ha
  have hbelow := h.known i b x hb hx
  rw [List.map_singleton, List.mem_singleton] at hz
  omega

/-- An accepted publication of a starting source is staged last. -/
theorem Core.Staging.accept (h : c.Staging) (hsound : c.publications.Sound) {p : Publication}
    {n : Node} {b : Box} {s : StagedOutput}
    (hok : (c.publications.reserve p.source p.staged).1 = .ok p.ticket)
    (hn : Seated c.nodes p.source n) (hst₁ : n.state ≠ .stopping) (hst₂ : n.state ≠ .stopped)
    (hb : c.boxes[p.source.slot]? = some b)
    (hdata : p.staged = true → s.publication = p.ticket ∧ s.stored = p.stored ∧
      p.sourcePort = some s.port)
    (hnodes : c'.nodes = c.nodes)
    (hboxes : c'.boxes = if p.staged then
      c.boxes.set p.source.slot { b with staged := b.staged ++ [s] } else c.boxes)
    (hpublications : c'.publications = (c.publications.reserve p.source p.staged).2.insert p) :
    c'.Staging := by
  obtain ⟨htick, -, hlook, -, hnext, -⟩ := hsound.accept hok
  have hlt : p.source.slot < c.boxes.length := (List.getElem?_eq_some_iff.mp hb).1
  -- a list is an old one, or the old list of the source with the output behind it
  have hbox : ∀ (i : ℕ) (y' : Box), c'.boxes[i]? = some y' → c.boxes[i]? = some y' ∨
      p.staged = true ∧ i = p.source.slot ∧ y'.staged = b.staged ++ [s] := by
    intro i y' hy'
    rw [hboxes] at hy'
    split_ifs at hy' with hst
    · rw [List.getElem?_set] at hy'
      split_ifs at hy' with hi
      · cases hy'
        exact .inr ⟨hst, hi.symm, rfl⟩
      · exact .inl hy'
    · exact .inl hy'
  have hkept : ∀ (i : ℕ) (y : Box) (x : StagedOutput), c.boxes[i]? = some y → x ∈ y.staged →
      ∃ y', c'.boxes[i]? = some y' ∧ x ∈ y'.staged := by
    intro i y x hy hx
    rw [hboxes]
    split_ifs
    · by_cases hi : p.source.slot = i
      · obtain rfl : b = y := Option.some.inj (hb.symm.trans (hi ▸ hy))
        exact ⟨{ b with staged := b.staged ++ [s] }, by simp [← hi, hlt], by simp [hx]⟩
      · exact ⟨y, by rw [List.getElem?_set_ne hi, hy], hx⟩
    · exact ⟨y, hy, hx⟩
  have hmem : ∀ (i : ℕ) (y' : Box) (x : StagedOutput), c'.boxes[i]? = some y' → x ∈ y'.staged →
      (∃ y, c.boxes[i]? = some y ∧ x ∈ y.staged) ∨
        p.staged = true ∧ i = p.source.slot ∧ x = s := by
    intro i y' x hy' hx
    rcases hbox i y' hy' with hy | ⟨hst, rfl, hy⟩
    · exact .inl ⟨y', hy, hx⟩
    · rw [hy, List.mem_append, List.mem_singleton] at hx
      exact hx.imp (fun hx => ⟨b, hb, hx⟩) fun hx => ⟨hst, rfl, hx⟩
  refine ⟨fun q x hx hst => ?_, fun i k y' x q hk hy' hx hq => ?_, fun i y' hy' => ?_,
    fun i y' x hy' hx => ?_⟩
  · rw [hpublications, hlook] at hx
    rw [hnodes]
    split_ifs at hx with hq
    · cases hx
      refine ⟨⟨n, hn, hst₁, hst₂⟩, { b with staged := b.staged ++ [s] }, ?_, s, by simp,
        (hdata hst).1.trans hq.symm⟩
      rw [hboxes, if_pos hst, List.getElem?_set_self hlt]
    · obtain ⟨hpresent, y, hy, t, ht, hid⟩ := h.held q x hx hst
      obtain ⟨y', hy', ht'⟩ := hkept _ y t hy ht
      exact ⟨hpresent, y', hy', t, ht', hid⟩
  · rw [hpublications, hlook] at hq
    rw [hnodes] at hk
    rcases hmem i y' x hy' hx with ⟨y, hy, hxy⟩ | ⟨hst, hi, rfl⟩
    · have hbelow := h.known i y x hy hxy
      rw [if_neg (by omega)] at hq
      exact h.data i k y x q hk hy hxy hq
    · obtain ⟨d1, d2, d3⟩ := hdata hst
      rw [if_pos d1] at hq
      cases hq
      obtain rfl : n = k := Option.some.inj (hn.1.symm.trans (hi ▸ hk))
      exact ⟨hn.2.symm, hst, d2.symm, d3⟩
  · rcases hbox i y' hy' with hy | ⟨hst, rfl, hy⟩
    · exact h.order i y' hy
    · rw [hy]
      exact h.order_append hb ((hdata hst).1.trans htick)
  · rw [hpublications, hnext]
    rcases hmem i y' x hy' hx with ⟨y, hy, hxy⟩ | ⟨hst, -, rfl⟩
    · exact (h.known i y x hy hxy).trans (Nat.lt_succ_self _)
    · rw [(hdata hst).1, htick]
      exact Nat.lt_succ_self _

/-- The first output of a staging list is published under its identity alone. -/
theorem Core.Staging.flush (h : c.Staging) (ho : c.Owned world) (hsound : c.publications.Sound)
    {r : ActorRef} {n : Node} {b : Box} {s : StagedOutput} {rest : List StagedOutput}
    (hn : Seated c.nodes r n) (hb : c.boxes[r.slot]? = some b) (hstaged : b.staged = s :: rest)
    (hnodes : c'.nodes = c.nodes)
    (hboxes : c'.boxes = c.boxes.set r.slot { b with staged := rest })
    (hpublications : c'.publications = c.publications.unstage s.publication) : c'.Staging := by
  obtain ⟨-, hlook, -, hnext, -⟩ := hsound.unstage s.publication
  have horder := h.order _ b hb
  rw [hstaged, List.map_cons, List.pairwise_cons] at horder
  have hsub : rest.Sublist b.staged := hstaged ▸ List.sublist_cons_self _ _
  refine h.shrink hb hsub hnodes hboxes (by rw [hpublications, hnext]) (fun id p hp hst => ?_)
    fun j k y x p hk hy hx hrest hp => ?_
  · rw [hpublications, hlook] at hp
    split_ifs at hp with he
    · obtain ⟨q, -, rfl⟩ := Option.map_eq_some_iff.mp hp
      cases hst
    · refine ⟨hp, fun t ht hid => ?_⟩
      rw [hstaged] at ht
      refine (List.mem_cons.mp ht).resolve_left ?_
      rintro rfl
      exact he hid.symm
  · rw [hpublications, hlook] at hp
    split_ifs at hp with he
    · -- an output under the same identity would be of the same actor, behind the first
      obtain ⟨q, hq, rfl⟩ := Option.map_eq_some_iff.mp hp
      have h1 := (h.data j k y x q hk hy hx (he ▸ hq)).1
      have h2 := (h.data _ n b s q hn.1 hb (by simp [hstaged]) hq).1
      have hj : j = r.slot := by
        rw [← (ho.slotted j k hk).2, ← h1, h2, hn.2]
      have hafter := horder.1 _ (List.mem_map_of_mem (hrest hj))
      omega
    · exact hp

theorem Core.Staging.step (h : c.Staging) (ho : c.Owned world) (hc : c.Columns)
    (hpub : c.Publishing) (hs : Step world c m c') : c'.Staging := by
  have hsound := hpub.sound
  have hsame : ∀ id p', c.publications.entries.lookup id = some p' →
      ∃ p, c.publications.entries.lookup id = some p ∧ p.Same p' :=
    fun id p hp => ⟨p, hp, rfl, rfl, rfl, rfl⟩
  have hupdate : ∀ (id : ℕ) (p q : Publication), c.publications.entries.lookup id = some p →
      q.ticket = p.ticket → p.Same q → ∀ j x,
      (c.publications.update q).entries.lookup j = some x →
        ∃ p, c.publications.entries.lookup j = some p ∧ p.Same x := by
    intro id p q hp ht hq j x hx
    simp only [PublicationTable.update, Assoc.lookup_insert_ite] at hx
    split_ifs at hx with hj
    · cases hx
      exact ⟨p, by rw [hj, ht, (hsound.key id p hp).1, hp], hq⟩
    · exact hsame j x hx
  have hs' := hs
  cases hs
  case conclude id outcome p hp _ =>
    obtain ⟨-, h2, -, h4, -⟩ := hsound.conclude hp outcome
    refine h.keep ho hs' (by simp) (by simp [Move.stops]) hsound (fun q x hx => ?_) h4.ge
      fun _ => rfl
    simp only [h2, Assoc.lookup_erase_ite] at hx
    split_ifs at hx
    exact hsame q x hx
  case lose r lost b n kept late hn hb hsub hkept hlost =>
    refine h.shrink hb hsub rfl rfl le_rfl (fun id p hp _ => ⟨hp, fun s hs hid => ?_⟩)
      fun _ _ _ _ _ _ _ _ _ hp => hp
    refine (hkept s hs).resolve_right fun hl => ?_
    exact Option.some_ne_none p (hp.symm.trans (hlost id (hid ▸ hl)))
  case cancel r m reason b n before after hn hb hq hre =>
    exact h.keep ho hs' (by simp) (by simp [Move.stops]) hsound hsame le_rfl
      (staged_set { b with queue := before ++ after } hb rfl)
  case stop r n b _ _ _ _ _ _ _ hqueue _ _ _ _ =>
    refine h.keep ho hs' (by simp) (fun x hx => ?_) hsound hsame le_rfl fun _ => rfl
    have hrx : r = x := hx
    exact hrx ▸ hqueue
  case allocate r parent done hf hw hp =>
    exact h.allocate ho hc hf rfl rfl rfl fun q hq => ho.present hs' not_false hq
  case enqueue r m b _ hb _ =>
    exact h.keep ho hs' (by simp) (by simp [Move.stops]) hsound hsame le_rfl
      (staged_set { b with queue := b.queue ++ [m] } hb rfl)
  case start r m b rest l _ hb _ _ _ _ _ =>
    exact h.keep ho hs' (by simp) (by simp [Move.stops]) hsound hsame le_rfl
      (staged_set { b with queue := rest, inFlight := true } hb rfl)
  case finish l success b _ hb =>
    exact h.keep ho hs' (by simp) (by simp [Move.stops]) hsound hsame le_rfl
      (staged_set { b with inFlight := false } hb rfl)
  case abandon l b _ hb =>
    exact h.keep ho hs' (by simp) (by simp [Move.stops]) hsound hsame le_rfl
      (staged_set { b with inFlight := false } hb rfl)
  case reserveTicket source staged =>
    rcases c.publications.reserve_frame source staged with ⟨he, -⟩ | ⟨-, he, -, -, -, hn, -⟩
    · exact h.keep ho hs' (by simp) (by simp [Move.stops]) hsound (by rwa [he]) (by rw [he])
        fun _ => rfl
    · exact h.keep ho hs' (by simp) (by simp [Move.stops]) hsound (by rwa [he])
        (by simp only [hn]; omega) fun _ => rfl
  case cloneHandle id =>
    obtain ⟨h1, -, -, -, h5, -⟩ := c.publications.cloneHandle_frame id
    exact h.keep ho hs' (by simp) (by simp [Move.stops]) hsound (by rwa [h1]) h5.ge fun _ => rfl
  case dropHandle id =>
    obtain ⟨h1, -, -, -, h5, -⟩ := c.publications.dropHandle_frame id
    exact h.keep ho hs' (by simp) (by simp [Move.stops]) hsound (by rwa [h1]) h5.ge fun _ => rfl
  case accept p n b s hok _ _ _ _ _ hn hst₁ hst₂ hb hdata =>
    exact h.accept hsound hok hn hst₁ hst₂ hb hdata rfl rfl rfl
  case flush r id n b s rest hn hb hstaged hsid =>
    exact h.flush ho hsound hn hb hstaged rfl rfl (by rw [hsid])
  case capture id routes p hp _ _ _ _ =>
    exact h.keep ho hs' (by simp) (by simp [Move.stops]) hsound
      (hupdate id p { p with
        routes := some routes
        report := { p.report with matched := routes.length } } hp rfl ⟨rfl, rfl, rfl, rfl⟩) le_rfl
      fun _ => rfl
  case attempt id route target p routes hp _ _ _ =>
    exact h.keep ho hs' (by simp) (by simp [Move.stops]) hsound
      (hupdate id p (p.attempted false) hp rfl ⟨rfl, rfl, rfl, rfl⟩) le_rfl fun _ => rfl
  case deliver id route target mail p routes b sub hp _ _ _ _ _ hb _ _ =>
    exact h.keep ho hs' (by simp) (by simp [Move.stops]) hsound
      (hupdate id p (p.attempted true) hp rfl ⟨rfl, rfl, rfl, rfl⟩) le_rfl
      (staged_set { b with queue := b.queue ++ [mail] } hb rfl)
  case requeue id p ready hp _ hready =>
    obtain ⟨-, h2, -, h4, -⟩ := hsound.requeue hp hready
    exact h.keep ho hs' (by simp) (by simp [Move.stops]) hsound (by rwa [h2]) h4.ge fun _ => rfl
  all_goals exact h.keep ho hs' (by simp) (by simp [Move.stops]) hsound hsame le_rfl fun _ => rfl

end Actorplane

import Actorplane.Core.Progress
import Actorplane.Core.Ownership

/-!
# Order, snapshots and staging of publications

Attempts of one source happen in the order of its tickets, captured routes agree
with the routes still in the table, and staged publications are listed by their
source, which is present.
-/

namespace Actorplane

variable {world : ℕ} {c c' : Core} {m : Move} {log : List Event}

/-! ## Order -/

def acceptedIds (log : List Event) : List ℕ :=
  log.filterMap fun
    | .accepted p _ => some p
    | _ => none

/-- The publication of every attempt made for one source. -/
def attemptedBy (log : List Event) (source : ActorRef) : List ℕ :=
  log.filterMap fun
    | .attempted p s _ _ _ => if s = source then some p else none
    | _ => none

def deliveredIds (log : List Event) : List ℕ :=
  log.filterMap fun
    | .attempted _ _ _ _ delivery => delivery
    | _ => none

@[simp] theorem acceptedIds_append (log log' : List Event) :
    acceptedIds (log ++ log') = acceptedIds log ++ acceptedIds log' := List.filterMap_append

@[simp] theorem attemptedBy_append (log log' : List Event) (s : ActorRef) :
    attemptedBy (log ++ log') s = attemptedBy log s ++ attemptedBy log' s := List.filterMap_append

@[simp] theorem deliveredIds_append (log log' : List Event) :
    deliveredIds (log ++ log') = deliveredIds log ++ deliveredIds log' := List.filterMap_append

structure Core.Ordered (c : Core) : Prop where
  accepted : (acceptedIds c.published).Pairwise (· < ·)
  accepted_lt : ∀ i ∈ acceptedIds c.published, i < c.publications.nextId
  attempts : ∀ s, (attemptedBy c.published s).Pairwise (· ≤ ·)
  attempts_lt : ∀ s, ∀ i ∈ attemptedBy c.published s, i < c.publications.nextId
  bound : ∀ s, ∀ i ∈ attemptedBy c.published s, ∀ q p, c.publications.entries.lookup q = some p →
    p.source = s → i ≤ q
  deliveries : (deliveredIds c.published).Pairwise (· < ·)
  deliveries_lt : ∀ e ∈ deliveredIds c.published, e < c.nextEvent

/-- A step that records no acceptance or attempt and brings no new entry. -/
theorem Core.Ordered.keep (h : c.Ordered) (hacc : acceptedIds c'.published = acceptedIds c.published)
    (hatt : ∀ s, attemptedBy c'.published s = attemptedBy c.published s)
    (hdel : deliveredIds c'.published = deliveredIds c.published)
    (hn : c.publications.nextId ≤ c'.publications.nextId) (he : c.nextEvent ≤ c'.nextEvent)
    (hent : ∀ q p, c'.publications.entries.lookup q = some p →
      ∃ p₀, c.publications.entries.lookup q = some p₀ ∧ p₀.source = p.source) : c'.Ordered := by
  refine ⟨hacc ▸ h.accepted, fun i hi => ?_, fun s => hatt s ▸ h.attempts s, fun s i hi => ?_,
    fun s i hi q p hp hs => ?_, hdel ▸ h.deliveries, fun e hd => ?_⟩
  · exact (h.accepted_lt i (hacc ▸ hi)).trans_le hn
  · exact (h.attempts_lt s i (hatt s ▸ hi)).trans_le hn
  · obtain ⟨p₀, hp₀, hs₀⟩ := hent q p hp
    exact h.bound s i (hatt s ▸ hi) q p₀ hp₀ (hs₀.trans hs)
  · exact (h.deliveries_lt e (hdel ▸ hd)).trans_le he

/-- The head of a queue is attempted: nothing of its source has been attempted after it. -/
theorem Core.Ordered.attempting (h : c.Ordered) (hpub : c.Publishing) (delivery : Option ℕ)
    {id : ℕ} {p q : Publication} {route : ℕ} {target : ActorRef}
    (hp : c.publications.entries.lookup id = some p)
    (hq : c.publications.queueOf p.source = id :: (c.publications.queueOf p.source).tail)
    (hqt : q.ticket = p.ticket ∧ q.source = p.source)
    (hlog : c'.published = c.published ++ [.attempted p.ticket p.source route target delivery])
    (hpubs : c'.publications = c.publications.update q)
    (he : ∀ e, delivery = some e → e = c.nextEvent ∧ c'.nextEvent = c.nextEvent + 1)
    (hle : c.nextEvent ≤ c'.nextEvent) : c'.Ordered := by
  have hkey := hpub.sound.key id p hp
  have hfirst : ∀ j x, c.publications.entries.lookup j = some x → x.source = p.source → id ≤ j := by
    intro j x hx hxs
    have hj : j ∈ c.publications.queueOf p.source := (hpub.sound.queue _ _).mpr ⟨x, hx, hxs⟩
    have hsorted := hpub.sound.sorted p.source
    rw [hq] at hj hsorted
    rcases List.mem_cons.mp hj with rfl | hj
    · exact le_rfl
    · exact ((List.pairwise_cons.mp hsorted).1 j hj).le
  have hlook : ∀ j, c'.publications.entries.lookup j =
      if j = id then some q else c.publications.entries.lookup j := by
    intro j
    rw [hpubs, ← hkey.1, ← hqt.1]
    exact Assoc.lookup_insert_ite _ _ _ _
  have hacc : acceptedIds c'.published = acceptedIds c.published := by
    rw [hlog, acceptedIds_append]
    simp [acceptedIds]
  have hatt : ∀ s, attemptedBy c'.published s =
      attemptedBy c.published s ++ if p.source = s then [id] else [] := by
    intro s
    rw [hlog, attemptedBy_append]
    by_cases hs : p.source = s <;> simp [attemptedBy, hs, hkey.1]
  have hdel : deliveredIds c'.published = deliveredIds c.published ++ delivery.toList := by
    rw [hlog, deliveredIds_append]
    cases delivery <;> simp [deliveredIds]
  have hnext : c'.publications.nextId = c.publications.nextId := by rw [hpubs]; rfl
  refine ⟨hacc ▸ h.accepted, fun i hi => ?_, fun s => ?_, fun s i hi => ?_,
    fun s i hi j x hx hxs => ?_, ?_, fun e hd => ?_⟩
  · exact hnext ▸ h.accepted_lt i (hacc ▸ hi)
  · rw [hatt]
    refine List.pairwise_append.mpr ⟨h.attempts s, by split_ifs <;> simp, fun i hi j hj => ?_⟩
    split_ifs at hj with hs
    · rw [List.mem_singleton.mp hj]
      exact h.bound s i hi id p hp hs
    · simp at hj
  · rw [hatt] at hi
    rw [hnext]
    rcases List.mem_append.mp hi with hi | hi
    · exact h.attempts_lt s i hi
    · split_ifs at hi
      · exact List.mem_singleton.mp hi ▸ hkey.2
      · simp at hi
  · rw [hlook] at hx
    rw [hatt] at hi
    have hold : ∃ x₀, c.publications.entries.lookup j = some x₀ ∧ x₀.source = s := by
      split_ifs at hx with hj
      · cases hx
        exact ⟨p, hj ▸ hp, hqt.2.symm.trans hxs⟩
      · exact ⟨x, hx, hxs⟩
    obtain ⟨x₀, hx₀, hs₀⟩ := hold
    rcases List.mem_append.mp hi with hi | hi
    · exact h.bound s i hi j x₀ hx₀ hs₀
    · split_ifs at hi with hs
      · rw [List.mem_singleton.mp hi]
        exact hfirst j x₀ hx₀ (hs₀.trans hs.symm)
      · simp at hi
  · rw [hdel]
    refine List.pairwise_append.mpr ⟨h.deliveries, by cases delivery <;> simp, fun a ha b hb => ?_⟩
    rw [(he b (Option.mem_toList.mp hb)).1]
    exact h.deliveries_lt a ha
  · rw [hdel] at hd
    rcases List.mem_append.mp hd with hd | hd
    · exact (h.deliveries_lt e hd).trans_le hle
    · obtain ⟨he1, he2⟩ := he e (Option.mem_toList.mp hd)
      omega

/-- A new publication is the latest that was accepted. -/
theorem Core.Ordered.accepting (h : c.Ordered) (hpub : c.Publishing) {p : Publication}
    (hok : (c.publications.reserve p.source p.staged).1 = .ok p.ticket)
    (hpubs : c'.publications = (c.publications.reserve p.source p.staged).2.insert p)
    (hlog : c'.published = c.published ++ [.accepted p.ticket p.source])
    (hnext : c'.nextEvent = c.nextEvent) : c'.Ordered := by
  obtain ⟨k0, -, k2, -, k4, -⟩ := hpub.sound.accept hok
  have hacc : acceptedIds c'.published = acceptedIds c.published ++ [p.ticket] := by
    rw [hlog, acceptedIds_append]
    rfl
  have hatt : ∀ s, attemptedBy c'.published s = attemptedBy c.published s := by
    intro s
    rw [hlog, attemptedBy_append]
    simp [attemptedBy]
  have hdel : deliveredIds c'.published = deliveredIds c.published := by
    rw [hlog, deliveredIds_append]
    simp [deliveredIds]
  refine ⟨?_, fun i hi => ?_, fun s => hatt s ▸ h.attempts s, fun s i hi => ?_,
    fun s i hi q x hx hxs => ?_, hdel ▸ h.deliveries, fun e hd => ?_⟩
  · rw [hacc]
    refine List.pairwise_append.mpr ⟨h.accepted, by simp, fun i hi j hj => ?_⟩
    rw [List.mem_singleton.mp hj, k0]
    exact h.accepted_lt i hi
  · rw [hacc] at hi
    rw [hpubs, k4]
    rcases List.mem_append.mp hi with hi | hi
    · exact (h.accepted_lt i hi).trans (Nat.lt_succ_self _)
    · rw [List.mem_singleton.mp hi, k0]
      exact Nat.lt_succ_self _
  · rw [hpubs, k4]
    exact (h.attempts_lt s i (hatt s ▸ hi)).trans (Nat.lt_succ_self _)
  · rw [hatt] at hi
    rw [hpubs, k2] at hx
    split_ifs at hx with hq
    · rw [hq, k0]
      exact (h.attempts_lt s i hi).le
    · exact h.bound s i hi q x hx hxs
  · rw [hnext]
    exact h.deliveries_lt e (hdel ▸ hd)

theorem Core.Ordered.step (h : c.Ordered) (hpub : c.Publishing) (hs : Step world c m c') :
    c'.Ordered := by
  have hsame : ∀ q p, c.publications.entries.lookup q = some p →
      ∃ p₀, c.publications.entries.lookup q = some p₀ ∧ p₀.source = p.source :=
    fun q p hp => ⟨p, hp, rfl⟩
  cases hs
  case conclude id outcome p hp _ =>
    obtain ⟨-, h2, -, h4, -⟩ := hpub.sound.conclude hp outcome
    refine h.keep (by simp [acceptedIds]) (by simp [attemptedBy]) (by simp [deliveredIds])
      h4.ge le_rfl fun q x hx => ⟨x, ?_, rfl⟩
    simp only [h2, Assoc.lookup_erase_ite] at hx
    split_ifs at hx
    exact hx
  case reserveTicket source staged =>
    rcases c.publications.reserve_frame source staged with ⟨he, -⟩ | ⟨-, he, -, -, -, hn, -⟩
    · exact h.keep rfl (fun _ => rfl) rfl (congrArg PublicationTable.nextId he).ge le_rfl
        fun q p hp => ⟨p, he ▸ hp, rfl⟩
    · exact h.keep rfl (fun _ => rfl) rfl (hn.symm ▸ Nat.le_succ _) le_rfl
        fun q p hp => ⟨p, he ▸ hp, rfl⟩
  case cloneHandle id =>
    obtain ⟨h1, -, -, -, h5, -⟩ := c.publications.cloneHandle_frame id
    exact h.keep rfl (fun _ => rfl) rfl h5.ge le_rfl fun q p hp => ⟨p, h1 ▸ hp, rfl⟩
  case dropHandle id =>
    obtain ⟨h1, -, -, -, h5, -⟩ := c.publications.dropHandle_frame id
    exact h.keep rfl (fun _ => rfl) rfl h5.ge le_rfl fun q p hp => ⟨p, h1 ▸ hp, rfl⟩
  case accept p n b s hok hr hc ha hj hm hn hst hst' hb _ =>
    exact h.accepting hpub hok rfl rfl rfl
  case flush r id n b s rest _ _ _ _ =>
    obtain ⟨-, h2, -, h4, -⟩ := hpub.sound.unstage id
    refine h.keep rfl (fun _ => rfl) rfl h4.ge le_rfl fun q p hp => ?_
    simp only [h2] at hp
    split_ifs at hp with he
    · obtain ⟨x, hx, rfl⟩ := Option.map_eq_some_iff.mp hp
      exact ⟨x, he ▸ hx, rfl⟩
    · exact ⟨p, hp, rfl⟩
  case capture id routes p hp _ _ hnone hroutes =>
    have hkey := (hpub.sound.key id p hp).1
    refine h.keep (by simp [acceptedIds]) (by simp [attemptedBy]) (by simp [deliveredIds]) le_rfl
      le_rfl fun q x hx => ?_
    simp only [PublicationTable.update, Assoc.lookup_insert_ite] at hx
    split_ifs at hx with hq
    · cases hx
      exact ⟨p, by rw [hq, hkey, hp], rfl⟩
    · exact ⟨x, hx, rfl⟩
  case attempt id route target p routes hp hq hroutes hget =>
    exact h.attempting hpub none hp hq (q := p.attempted false) ⟨rfl, rfl⟩ rfl rfl (by simp) le_rfl
  case deliver id route target mail p routes b sub hp hq hroutes hget _ _ _ hm _ =>
    refine h.attempting hpub (some mail.eventId) (q := p.attempted true) hp hq
      ⟨rfl, rfl⟩ rfl rfl (fun e he => ?_) ?_
    · cases he
      exact ⟨hm, congrArg (· + 1) hm⟩
    · exact (hm ▸ Nat.le_succ _ : c.nextEvent ≤ mail.eventId + 1)
  case requeue id p ready hp _ hready =>
    obtain ⟨-, h2, -, h4, -⟩ := hpub.sound.requeue hp hready
    exact h.keep rfl (fun _ => rfl) rfl h4.ge le_rfl fun q x hx => ⟨x, h2 ▸ hx, rfl⟩
  case burn => exact h.keep rfl (fun _ => rfl) rfl le_rfl (Nat.le_succ _) hsame
  case enqueue r m b _ _ hm =>
    exact h.keep rfl (fun _ => rfl) rfl le_rfl
      (hm ▸ Nat.le_succ _ : c.nextEvent ≤ m.eventId + 1) hsame
  all_goals exact h.keep rfl (fun _ => rfl) rfl le_rfl le_rfl hsame

/-! ## Snapshots -/

/-- A captured route that is still in the table is the route that was captured. -/
def Core.Snapshots (c : Core) : Prop :=
  ∀ id p routes i target, c.publications.entries.lookup id = some p → p.routes = some routes →
    (i, target) ∈ routes → i < c.nextSub ∧ ∀ s, c.subs.get i = some s →
      s.source = p.source ∧ s.sourcePort = p.sourcePort ∧ s.target = target

theorem Core.Snapshots.keep (h : c.Snapshots)
    (hent : ∀ q p, c'.publications.entries.lookup q = some p → p.routes = none ∨
      ∃ p₀, c.publications.entries.lookup q = some p₀ ∧ p₀.routes = p.routes ∧
        p₀.source = p.source ∧ p₀.sourcePort = p.sourcePort)
    (hn : c.nextSub ≤ c'.nextSub)
    (hsub : ∀ i s, i < c.nextSub → c'.subs.get i = some s → c.subs.get i = some s) :
    c'.Snapshots := by
  intro id p routes i target hp hr hi
  rcases hent id p hp with hnone | ⟨p₀, hp₀, hr₀, hs₀, hport⟩
  · simp [hnone] at hr
  · obtain ⟨h1, h2⟩ := h id p₀ routes i target hp₀ (hr₀.trans hr) hi
    refine ⟨h1.trans_le hn, fun s hs => ?_⟩
    rw [← hs₀, ← hport]
    exact h2 s (hsub i s h1 hs)

theorem Core.Snapshots.step (h : c.Snapshots) (hpub : c.Publishing) (hr : c.Routed)
    (hs : Step world c m c') : c'.Snapshots := by
  have hkept : ∀ q p, c.publications.entries.lookup q = some p → p.routes = none ∨
      ∃ p₀, c.publications.entries.lookup q = some p₀ ∧ p₀.routes = p.routes ∧
        p₀.source = p.source ∧ p₀.sourcePort = p.sourcePort :=
    fun q p hp => .inr ⟨p, hp, rfl, rfl, rfl⟩
  have hupdate : ∀ (id : ℕ) (p q : Publication), c.publications.entries.lookup id = some p →
      q.ticket = p.ticket → q.routes = p.routes → q.source = p.source →
      q.sourcePort = p.sourcePort → ∀ j x,
      (c.publications.update q).entries.lookup j = some x → x.routes = none ∨
        ∃ p₀, c.publications.entries.lookup j = some p₀ ∧ p₀.routes = x.routes ∧
          p₀.source = x.source ∧ p₀.sourcePort = x.sourcePort := by
    intro id p q hp h1 h2 h3 h4 j x hx
    simp only [PublicationTable.update, Assoc.lookup_insert_ite] at hx
    split_ifs at hx with hj
    · cases hx
      exact .inr ⟨p, by rw [hj, h1, (hpub.sound.key id p hp).1, hp], h2.symm, h3.symm, h4.symm⟩
    · exact hkept j x hx
  cases hs
  case conclude id outcome p hp _ =>
    obtain ⟨-, h2, -⟩ := hpub.sound.conclude hp outcome
    refine h.keep (fun q x hx => hkept q x ?_) le_rfl fun _ _ _ hs => hs
    simp only [h2, Assoc.lookup_erase_ite] at hx
    split_ifs at hx
    exact hx
  case unroute id route hget =>
    refine h.keep hkept le_rfl fun i s _ hs => ?_
    simp only [RouteTable.get_erase] at hs
    split_ifs at hs
    exact hs
  case connect route _ _ _ =>
    refine h.keep hkept (Nat.le_succ _) fun i s hi hs => ?_
    simpa only [RouteTable.get_insert, if_neg hi.ne] using hs
  case reserveTicket source staged =>
    rcases c.publications.reserve_frame source staged with ⟨he, -⟩ | ⟨-, he, -⟩
    · exact h.keep (fun q p hp => hkept q p (he ▸ hp)) le_rfl fun _ _ _ hs => hs
    · exact h.keep (fun q p hp => hkept q p (he ▸ hp)) le_rfl fun _ _ _ hs => hs
  case cloneHandle id =>
    have h1 := (c.publications.cloneHandle_frame id).1
    exact h.keep (fun q p hp => hkept q p (h1 ▸ hp)) le_rfl fun _ _ _ hs => hs
  case dropHandle id =>
    have h1 := (c.publications.dropHandle_frame id).1
    exact h.keep (fun q p hp => hkept q p (h1 ▸ hp)) le_rfl fun _ _ _ hs => hs
  case accept p n b s hok hroutes _ _ _ _ _ _ _ _ _ =>
    obtain ⟨-, -, k2, -⟩ := hpub.sound.accept hok
    refine h.keep (fun q x hx => ?_) le_rfl fun _ _ _ hs => hs
    rw [k2] at hx
    split_ifs at hx
    · cases hx
      exact .inl hroutes
    · exact hkept q x hx
  case flush r id n b s rest _ _ _ _ =>
    obtain ⟨-, h2, -⟩ := hpub.sound.unstage id
    refine h.keep (fun q p hp => ?_) le_rfl fun _ _ _ hs => hs
    simp only [h2] at hp
    split_ifs at hp with he
    · obtain ⟨x, hx, rfl⟩ := Option.map_eq_some_iff.mp hp
      exact .inr ⟨x, he ▸ hx, rfl, rfl, rfl⟩
    · exact hkept q p hp
  case capture id routes p hp _ _ hnone hroutes =>
    intro j x rs i target hx hrs hi
    simp only [PublicationTable.update, Assoc.lookup_insert_ite] at hx
    split_ifs at hx with hj
    · cases hx
      cases hrs
      rw [hroutes] at hi
      obtain ⟨s, hs, h1, h2, h3⟩ := hr.indexed.mem_snapshot.mp hi
      refine ⟨hr.fresh i s hs, fun s' hs' => ?_⟩
      have := hs.symm.trans hs'
      cases this
      exact ⟨h1, h2, h3⟩
    · exact h j x rs i target hx hrs hi
  case attempt id route target p routes hp _ _ _ =>
    exact h.keep (hupdate id p (p.attempted false) hp rfl rfl rfl rfl) le_rfl fun _ _ _ hs => hs
  case deliver id route target mail p routes b sub hp _ _ _ _ _ _ _ _ =>
    exact h.keep (hupdate id p (p.attempted true) hp rfl rfl rfl rfl) le_rfl fun _ _ _ hs => hs
  case requeue id p ready hp _ hready =>
    obtain ⟨-, h2, -⟩ := hpub.sound.requeue hp hready
    exact h.keep (fun q x hx => hkept q x (h2 ▸ hx)) le_rfl fun _ _ _ hs => hs
  all_goals exact h

end Actorplane

import Memtrade.Coordinator.Listing
import Mathlib.Data.Finset.Card
import Mathlib.Order.Interval.Finset.Nat

/-!
# Identity of producers

An endpoint is known in two places: by its text in the producer map, which never
shrinks, and by its fields on the producer list. While the map has room for all
endpoints, both give one id to an endpoint for good.
-/

namespace Memtrade.Coordinator

open CText

/-! ## The text of an endpoint -/

theorem eq_of_append_sep {α : Type} {sep : α} {a b c d : List α} (hb : sep ∉ b) (hd : sep ∉ d)
    (h : a ++ sep :: b = c ++ sep :: d) : a = c ∧ b = d := by
  induction a generalizing c with
  | nil =>
      cases c with
      | nil => simpa using h
      | cons x c =>
          simp only [List.nil_append, List.cons_append, List.cons.injEq] at h
          exact absurd (by simp [h.2]) hb
  | cons x a ih =>
      cases c with
      | nil =>
          simp only [List.nil_append, List.cons_append, List.cons.injEq] at h
          exact absurd (by simp [← h.2]) hd
      | cons y c =>
          simp only [List.cons_append, List.cons.injEq] at h
          obtain ⟨hac, hbd⟩ := ih h.2
          exact ⟨by rw [h.1, hac], hbd⟩

theorem colon_not_mem_decimal (v : Int) : ':' ∉ decimal v := by
  intro hmem
  rcases mem_decimal hmem with h | h
  · exact absurd h (by decide)
  · exact absurd h (by decide)

theorem hash_inj {ip ip' : Text} {port port' : Int} :
    hash ip port = hash ip' port' ↔ ip = ip' ∧ port = port' := by
  constructor
  · intro h
    obtain ⟨hip, hport⟩ :=
      eq_of_append_sep (colon_not_mem_decimal port) (colon_not_mem_decimal port') h
    exact ⟨hip, decimal_injective hport⟩
  · rintro ⟨rfl, rfl⟩
    rfl

/-! ## The producer map -/

theorem findHash_some {s : State} {h : Text} {i : Nat} (hi : findHash s h = some i) :
    1 ≤ i ∧ i < s.producerId ∧ s.producerMap i = h := by
  have hmem := List.mem_of_find?_eq_some hi
  have htest := List.find?_some hi
  simp only [List.mem_range, Bool.and_eq_true, decide_eq_true_eq, beq_iff_eq] at hmem htest
  exact ⟨htest.1, by omega, htest.2⟩

theorem findHash_none {s : State} {h : Text} (hn : findHash s h = none) {i : Nat} (h1 : 1 ≤ i)
    (hid : i < s.producerId) (hmax : i < maxProducer) : s.producerMap i ≠ h := by
  have htest := List.find?_eq_none.mp hn i (by simp; omega)
  simpa [h1] using htest

theorem findHash_lt {s : State} {h : Text} {i : Nat} (hi : findHash s h = some i) :
    i < maxProducer := by
  have hmem := List.mem_of_find?_eq_some hi
  simp only [List.mem_range] at hmem
  omega

/-! ## Ids on the list -/

/-- No two nodes have one id, however many endpoints there are. -/
structure ListedIds (s : State) : Prop where
  listInv : ListInv s
  lt : ∀ n ∈ s.list, ∀ p, s.producers.cell n.producer = some p → p.id < s.producerId
  entry : ∀ n ∈ s.list, ∀ p, s.producers.cell n.producer = some p → p.id < maxProducer →
    s.producerMap p.id = hash p.ip p.port
  distinct : ∀ n ∈ s.list, ∀ m ∈ s.list, ∀ p q, s.producers.cell n.producer = some p →
    s.producers.cell m.producer = some q → p.id = q.id → n = m

theorem listedIds_init : ListedIds initState :=
  ⟨listInv_init, by simp [initState], by simp [initState], by simp [initState]⟩

theorem ListedIds.shrinks {s s' : State} (h : ListedIds s) (hs : Shrinks s s') : ListedIds s' := by
  have hback : ∀ n ∈ s'.list, ∀ q, s'.producers.cell n.producer = some q →
      n ∈ s.list ∧ ∃ p, s.producers.cell n.producer = some p ∧ SameIdentity p q := by
    intro n hn q hq
    obtain ⟨p, hp, -⟩ := h.listInv.live n (hs.list.subset hn)
    obtain ⟨q', hq', hpq⟩ := hs.cells n hn p hp
    rw [hq] at hq'
    cases hq'
    exact ⟨hs.list.subset hn, p, hp, hpq⟩
  refine ⟨hs.listInv h.listInv, ?_, ?_, ?_⟩
  · intro n hn q hq
    obtain ⟨hn', p, hp, hpq⟩ := hback n hn q hq
    rw [hs.producerId, hpq.id]
    exact h.lt n hn' p hp
  · intro n hn q hq hmax
    obtain ⟨hn', p, hp, hpq⟩ := hback n hn q hq
    rw [hpq.id] at hmax
    rw [hs.producerMap, hpq.id, hpq.ip, hpq.port]
    exact h.entry n hn' p hp hmax
  · intro n hn m hm q r hq hr hid
    obtain ⟨hn', p, hp, hpq⟩ := hback n hn q hq
    obtain ⟨hm', p', hp', hpr⟩ := hback m hm r hr
    rw [hpq.id, hpr.id] at hid
    exact h.distinct n hn' m hm' p p' hp hp' hid

/-- The id for an endpoint is a known one, with the text of the endpoint in the map, or
the next one. -/
theorem getProducerId_cases {s s₁ : State} {ip : Text} {port : Int} {id : Nat}
    (hget : getProducerId s ip port = (s₁, id)) :
    s.producerId ≤ s₁.producerId ∧ id < s₁.producerId ∧
      (∀ i < s.producerId, s₁.producerMap i = s.producerMap i) ∧
      (id < maxProducer → s₁.producerMap id = hash ip port) ∧
      (id < s.producerId → id < maxProducer) := by
  unfold getProducerId at hget
  cases hfind : findHash s (hash ip port) with
  | some i =>
      simp only [hfind, Prod.mk.injEq] at hget
      obtain ⟨rfl, rfl⟩ := hget
      obtain ⟨-, hlt, hentry⟩ := findHash_some hfind
      exact ⟨Nat.le_refl _, hlt, fun _ _ => rfl, fun _ => hentry, fun _ => findHash_lt hfind⟩
  | none =>
      simp only [hfind] at hget
      cases hget
      refine ⟨Nat.le_succ _, Nat.lt_succ_self _, ?_, ?_, fun h => absurd h (Nat.lt_irrefl _)⟩
      · intro i hi
        show (if s.producerId < maxProducer + 2 then _ else _ : Nat → Text) i = _
        split
        · exact Function.update_of_ne (by omega) _ _
        · rfl
      · intro hmax
        show (if s.producerId < maxProducer + 2 then _ else _ : Nat → Text) s.producerId = _
        rw [if_pos (by omega)]
        simp

theorem ListedIds.registered {s s₁ s' : State} (h : ListedIds s) {ip : Text} {port : Int}
    {nslabs id : Nat} {addr : BitVec 64} {q : ProducerInfo}
    (hget : getProducerId s ip port = (s₁, id)) (hreg : Registered s s' ip port nslabs addr id q)
    (hmap : s'.producerMap = s₁.producerMap) (hpid : s'.producerId = s₁.producerId) :
    ListedIds s' := by
  obtain ⟨hle, hltid, hsame, hentry, hknown⟩ := getProducerId_cases hget
  have hnew := hreg.cell_new
  have hold : ∀ n ∈ s.list, ∀ p, s'.producers.cell n.producer = some p →
      s.producers.cell n.producer = some p := by
    intro n hn p hp
    rwa [hreg.cell_listed h.listInv hn] at hp
  have hlt : ∀ n ∈ s.list, ∀ p, s.producers.cell n.producer = some p → p.id < s'.producerId := by
    intro n hn p hp
    rw [hpid]
    exact Nat.lt_of_lt_of_le (h.lt n hn p hp) hle
  have hkept : ∀ n ∈ s.list, ∀ p, s.producers.cell n.producer = some p → p.id < maxProducer →
      s'.producerMap p.id = hash p.ip p.port := by
    intro n hn p hp hmax
    rw [hmap, hsame p.id (h.lt n hn p hp)]
    exact h.entry n hn p hp hmax
  cases hreg.enlisted with
  | unlisted hport hid hlist hnext =>
      refine ⟨hreg.listInv h.listInv, ?_, ?_, ?_⟩ <;> rw [hlist]
      · exact fun n hn p hp => hlt n hn p (hold n hn p hp)
      · exact fun n hn p hp => hkept n hn p (hold n hn p hp)
      · exact fun n hn m hm p r hp hr => h.distinct n hn m hm p r (hold n hn p hp) (hold m hm r hr)
  | takeover node r hnode hcell hip hport hlst hid hlist hnext =>
      -- the node that is taken over keeps its id and its endpoint
      have hback : ∀ n' ∈ s'.list, ∀ p, s'.producers.cell n'.producer = some p →
          ∃ n ∈ s.list, n.addr = n'.addr ∧ ∃ p₀, s.producers.cell n.producer = some p₀ ∧
            p₀.id = p.id ∧ p₀.ip = p.ip ∧ p₀.port = p.port := by
        intro n' hn' p hp
        rw [hlist] at hn'
        obtain ⟨n, hn, rfl⟩ := List.mem_map.mp hn'
        refine ⟨n, hn, ?_, ?_⟩
        · split <;> rfl
        · split at hp
          · rename_i haddr
            rw [hnew] at hp
            cases hp
            rw [h.listInv.eq_of_addr hn hnode haddr]
            exact ⟨r, hcell, hid.symm, hip, hport⟩
          · exact ⟨p, hold n hn p hp, rfl, rfl, rfl⟩
      refine ⟨hreg.listInv h.listInv, ?_, ?_, ?_⟩
      · intro n' hn' p hp
        obtain ⟨n, hn, -, p₀, hp₀, hpid₀, -, -⟩ := hback n' hn' p hp
        rw [← hpid₀]
        exact hlt n hn p₀ hp₀
      · intro n' hn' p hp hmax
        obtain ⟨n, hn, -, p₀, hp₀, hpid₀, hip₀, hport₀⟩ := hback n' hn' p hp
        rw [← hpid₀] at hmax
        rw [← hpid₀, ← hip₀, ← hport₀]
        exact hkept n hn p₀ hp₀ hmax
      · intro n' hn' m' hm' p p' hp hp' hids
        obtain ⟨n, hn, haddr, p₀, hp₀, hpid₀, -, -⟩ := hback n' hn' p hp
        obtain ⟨m, hm, haddr', p₁, hp₁, hpid₁, -, -⟩ := hback m' hm' p' hp'
        have hnm : n = m := by
          apply h.distinct n hn m hm p₀ p₁ hp₀ hp₁
          rw [hpid₀, hpid₁, hids]
        apply (hreg.listInv h.listInv).eq_of_addr hn' hm'
        rw [← haddr, ← haddr', hnm]
  | front hfirst hlst hid hlist hnext =>
      -- a known id below the counter belongs to this endpoint, which has no node yet
      have hfresh : ∀ n ∈ s.list, ∀ p, s.producers.cell n.producer = some p → p.id ≠ q.id := by
        intro n hn p hp heq
        have hpid' := h.lt n hn p hp
        rw [heq, hid] at hpid'
        have hmax := hknown hpid'
        have htext := h.entry n hn p hp (by rwa [heq, hid])
        rw [heq, hid, ← hsame id hpid', hentry hmax] at htext
        obtain ⟨hip, hport⟩ := hash_inj.mp htext
        exact hfirst n hn p hp ⟨by rw [hreg.ip_eq, hip], by rw [hreg.port_eq, hport]⟩
      refine ⟨hreg.listInv h.listInv, ?_, ?_, ?_⟩ <;> rw [hlist]
      · intro n hn p hp
        rcases List.mem_cons.mp hn with rfl | hn
        · rw [hnew] at hp
          cases hp
          rwa [hpid, hid]
        · exact hlt n hn p (hold n hn p hp)
      · intro n hn p hp hmax
        rcases List.mem_cons.mp hn with rfl | hn
        · rw [hnew] at hp
          cases hp
          rw [hid] at hmax ⊢
          rw [hmap, hentry hmax, hreg.ip_eq, hreg.port_eq]
        · exact hkept n hn p (hold n hn p hp) hmax
      · intro n hn m hm p r hp hr hids
        rcases List.mem_cons.mp hn with rfl | hn
        · rw [hnew] at hp
          cases hp
          rcases List.mem_cons.mp hm with rfl | hm
          · rfl
          · exact absurd hids.symm (hfresh m hm r (hold m hm r hr))
        · rcases List.mem_cons.mp hm with rfl | hm
          · rw [hnew] at hr
            cases hr
            exact absurd hids (hfresh n hn p (hold n hn p hp))
          · exact h.distinct n hn m hm p r (hold n hn p hp) (hold m hm r hr) hids

/-! ## What is recorded about an endpoint -/

def endpointOf (s : State) (n : Node) : Option (Text × Int) :=
  (s.producers.cell n.producer).map fun p => (p.ip, p.port)

def idOf (s : State) (n : Node) : Option Nat := (s.producers.cell n.producer).map ProducerInfo.id

/-- The endpoints of all registrations in a run. -/
def endpoints (tr : List Event) : List (Text × Int) :=
  tr.filterMap fun e =>
    match e with
    | .added ip port _ => some (ip, port)
    | _ => none

theorem mem_endpoints {tr : List Event} {e : Text × Int} :
    e ∈ endpoints tr ↔ ∃ id, .added e.1 e.2 id ∈ tr := by
  simp only [endpoints, List.mem_filterMap]
  constructor
  · rintro ⟨ev, hmem, hev⟩
    cases ev with
    | added ip port id =>
        simp only [Option.some.injEq] at hev
        subst hev
        exact ⟨id, hmem⟩
    | _ => simp at hev
  · rintro ⟨id, hmem⟩
    exact ⟨_, hmem, rfl⟩

/-- The map gives each id below the counter to the text of one endpoint; the list
and the registrations agree with it. -/
structure IdInv (s : State) (tr : List Event) : Prop where
  listInv : ListInv s
  listed : ∀ n ∈ s.list, ∀ p, s.producers.cell n.producer = some p →
    1 ≤ p.id ∧ p.id < s.producerId ∧ s.producerMap p.id = hash p.ip p.port
  distinct : ∀ n ∈ s.list, ∀ m ∈ s.list, ∀ p q, s.producers.cell n.producer = some p →
    s.producers.cell m.producer = some q → p.ip = q.ip → p.port = q.port → n = m
  mapInj : ∀ i j, 1 ≤ i → i < s.producerId → 1 ≤ j → j < s.producerId →
    s.producerMap i = s.producerMap j → i = j
  added : ∀ ip port id, .added ip port id ∈ tr →
    1 ≤ id ∧ id < s.producerId ∧ s.producerMap id = hash ip port
  counted : ∀ i, 1 ≤ i → i < s.producerId → ∃ ip port, .added ip port i ∈ tr

theorem idInv_init : IdInv initState [] where
  listInv := listInv_init
  listed := by simp [initState]
  distinct := by simp [initState]
  mapInj i j hi hi' := by
    simp only [initState] at hi'
    omega
  added := by simp
  counted i hi hi' := by
    simp only [initState] at hi'
    omega

theorem IdInv.producerId_le {s : State} {tr : List Event} (h : IdInv s tr) :
    s.producerId ≤ (endpoints tr).toFinset.card + 1 := by
  classical
  choose! ip port hadded using h.counted
  have hcard : (Finset.Ico 1 s.producerId).card ≤ (endpoints tr).toFinset.card := by
    apply Finset.card_le_card_of_injOn fun i => (ip i, port i)
    · intro i hi
      obtain ⟨h1, hlt⟩ := Finset.mem_Ico.mp hi
      rw [Finset.mem_coe, List.mem_toFinset, mem_endpoints]
      exact ⟨i, hadded i h1 hlt⟩
    · intro i hi j hj hij
      obtain ⟨hi1, hilt⟩ := Finset.mem_Ico.mp hi
      obtain ⟨hj1, hjlt⟩ := Finset.mem_Ico.mp hj
      simp only [Prod.mk.injEq] at hij
      obtain ⟨-, -, hmapi⟩ := h.added _ _ _ (hadded i hi1 hilt)
      obtain ⟨-, -, hmapj⟩ := h.added _ _ _ (hadded j hj1 hjlt)
      apply h.mapInj i j hi1 hilt hj1 hjlt
      rw [hmapi, hmapj, hij.1, hij.2]
  rw [Nat.card_Ico] at hcard
  omega

theorem IdInv.shrinks {s s' : State} {tr evs : List Event} (h : IdInv s tr) (hs : Shrinks s s')
    (hevs : AddsNone evs) : IdInv s' (tr ++ evs) := by
  have hback : ∀ n ∈ s'.list, ∀ q, s'.producers.cell n.producer = some q →
      n ∈ s.list ∧ ∃ p, s.producers.cell n.producer = some p ∧ SameIdentity p q := by
    intro n hn q hq
    obtain ⟨p, hp, -⟩ := h.listInv.live n (hs.list.subset hn)
    obtain ⟨q', hq', hpq⟩ := hs.cells n hn p hp
    rw [hq] at hq'
    cases hq'
    exact ⟨hs.list.subset hn, p, hp, hpq⟩
  refine ⟨hs.listInv h.listInv, ?_, ?_, ?_, ?_, ?_⟩
  · intro n hn q hq
    obtain ⟨hn', p, hp, hpq⟩ := hback n hn q hq
    rw [hs.producerId, hs.producerMap, hpq.id, hpq.ip, hpq.port]
    exact h.listed n hn' p hp
  · intro n hn m hm q r hq hr hip hport
    obtain ⟨hn', p, hp, hpq⟩ := hback n hn q hq
    obtain ⟨hm', p', hp', hpr⟩ := hback m hm r hr
    rw [hpq.ip, hpr.ip] at hip
    rw [hpq.port, hpr.port] at hport
    exact h.distinct n hn' m hm' p p' hp hp' hip hport
  · rw [hs.producerId, hs.producerMap]
    exact h.mapInj
  · rw [hs.producerId, hs.producerMap]
    intro ip port id hmem
    rcases List.mem_append.mp hmem with hmem | hmem
    · exact h.added ip port id hmem
    · exact absurd hmem (hevs ip port id)
  · rw [hs.producerId]
    intro i hi hlt
    obtain ⟨ip, port, hmem⟩ := h.counted i hi hlt
    exact ⟨ip, port, List.mem_append_left _ hmem⟩

/-- The map after a registration: nothing known is lost, the endpoint has its id, and
no two ids have one text. -/
structure MapGrows (s s₁ : State) (h : Text) (id : Nat) : Prop where
  old : ∀ i, i < s.producerId → s₁.producerMap i = s.producerMap i
  le : s.producerId ≤ s₁.producerId
  pos : 1 ≤ id
  lt : id < s₁.producerId
  entry : s₁.producerMap id = h
  inj : ∀ i j, 1 ≤ i → i < s₁.producerId → 1 ≤ j → j < s₁.producerId →
    s₁.producerMap i = s₁.producerMap j → i = j
  new : ∀ i, i < s₁.producerId → i < s.producerId ∨ i = id

theorem IdInv.mapGrows {s s₁ : State} {tr : List Event} (h : IdInv s tr) (hpos : 1 ≤ s.producerId)
    (hroom : s.producerId ≤ maxProducer) {ip : Text} {port : Int} {id : Nat}
    (hget : getProducerId s ip port = (s₁, id)) : MapGrows s s₁ (hash ip port) id := by
  unfold getProducerId at hget
  cases hfind : findHash s (hash ip port) with
  | some i =>
      simp only [hfind, Prod.mk.injEq] at hget
      obtain ⟨rfl, rfl⟩ := hget
      obtain ⟨h1, hlt, hentry⟩ := findHash_some hfind
      exact ⟨fun _ _ => rfl, Nat.le_refl _, h1, hlt, hentry, h.mapInj, fun _ hi => .inl hi⟩
  | none =>
      simp only [hfind, if_pos (show s.producerId < maxProducer + 2 by omega)] at hget
      cases hget
      have hother : ∀ i, i < s.producerId →
          Function.update s.producerMap s.producerId (hash ip port) i = s.producerMap i := by
        intro i hi
        exact Function.update_of_ne (by omega) _ _
      have hself : Function.update s.producerMap s.producerId (hash ip port) s.producerId =
          hash ip port := by
        simp
      have hfresh : ∀ i, 1 ≤ i → i < s.producerId → s.producerMap i ≠ hash ip port :=
        fun i h1 hi => findHash_none hfind h1 hi (by omega)
      refine ⟨hother, Nat.le_succ _, hpos, Nat.lt_succ_self _, hself, ?_, ?_⟩
      · intro i j hi hi' hj hj' heq
        have hi'' : i < s.producerId + 1 := hi'
        have hj'' : j < s.producerId + 1 := hj'
        change Function.update s.producerMap s.producerId (hash ip port) i =
          Function.update s.producerMap s.producerId (hash ip port) j at heq
        rcases Nat.lt_succ_iff_lt_or_eq.mp hi'' with hilt | rfl
        · rcases Nat.lt_succ_iff_lt_or_eq.mp hj'' with hjlt | rfl
          · rw [hother i hilt, hother j hjlt] at heq
            exact h.mapInj i j hi hilt hj hjlt heq
          · rw [hother i hilt, hself] at heq
            exact absurd heq (hfresh i hi hilt)
        · rcases Nat.lt_succ_iff_lt_or_eq.mp hj'' with hjlt | rfl
          · rw [hself, hother j hjlt] at heq
            exact absurd heq.symm (hfresh j hj hjlt)
          · rfl
      · intro i hi
        have hi' : i < s.producerId + 1 := hi
        omega

/-- A struct that takes over a node has the id that the map gives its endpoint. -/
theorem IdInv.registered_id {s s₁ s' : State} {tr : List Event} (h : IdInv s tr) {ip : Text}
    {port : Int} {nslabs id : Nat} {addr : BitVec 64} {q : ProducerInfo}
    (hgrows : MapGrows s s₁ (hash ip port) id) (hreg : Registered s s' ip port nslabs addr id q) :
    q.id = id := by
  cases hreg.enlisted with
  | unlisted hport hid => exact hid
  | takeover node r hnode hcell hip hport hlst hid hlist hnext =>
      obtain ⟨h1, hlt, hmap⟩ := h.listed node hnode r hcell
      have hlt' : r.id < s₁.producerId := Nat.lt_of_lt_of_le hlt hgrows.le
      rw [hid]
      apply hgrows.inj r.id id h1 hlt' hgrows.pos hgrows.lt
      rw [hgrows.old r.id hlt, hmap, hip, hport, hreg.ip_eq, hreg.port_eq, hgrows.entry]
  | front hnew hlst hid => exact hid

/-- Taking over a node keeps its endpoint, and a new node has a new one. -/
theorem IdInv.registered_distinct {s s' : State} {tr : List Event} (h : IdInv s tr) {ip : Text}
    {port : Int} {nslabs id : Nat} {addr : BitVec 64} {q : ProducerInfo}
    (hreg : Registered s s' ip port nslabs addr id q) :
    ∀ n ∈ s'.list, ∀ m ∈ s'.list, ∀ p r, s'.producers.cell n.producer = some p →
      s'.producers.cell m.producer = some r → p.ip = r.ip → p.port = r.port → n = m := by
  have hnew := hreg.cell_new
  have hold : ∀ n ∈ s.list, ∀ p, s'.producers.cell n.producer = some p →
      s.producers.cell n.producer = some p := by
    intro n hn p hp
    rwa [hreg.cell_listed h.listInv hn] at hp
  cases hreg.enlisted with
  | unlisted hport hid hlist hnext =>
      rw [hlist]
      intro n hn m hm p r hp hr
      exact h.distinct n hn m hm p r (hold n hn p hp) (hold m hm r hr)
  | takeover node r hnode hcell hip hport hlst hid hlist hnext =>
      have hback : ∀ n ∈ s.list, ∀ p,
          s'.producers.cell (if n.addr = node.addr then
            { n with producer := s.producers.next } else n : Node).producer = some p →
          ∃ p₀, s.producers.cell n.producer = some p₀ ∧ p₀.ip = p.ip ∧ p₀.port = p.port := by
        intro n hn p hp
        split at hp
        · rename_i haddr
          rw [hnew] at hp
          cases hp
          rw [h.listInv.eq_of_addr hn hnode haddr]
          exact ⟨r, hcell, hip, hport⟩
        · exact ⟨p, hold n hn p hp, rfl, rfl⟩
      rw [hlist]
      intro n hn' m hm' p p' hp hp' heqip heqport
      obtain ⟨n, hn, rfl⟩ := List.mem_map.mp hn'
      obtain ⟨m, hm, rfl⟩ := List.mem_map.mp hm'
      obtain ⟨p₀, hp₀, hip₀, hport₀⟩ := hback n hn p hp
      obtain ⟨p₁, hp₁, hip₁, hport₁⟩ := hback m hm p' hp'
      have hnm : n = m := by
        apply h.distinct n hn m hm p₀ p₁ hp₀ hp₁
        · rw [hip₀, hip₁, heqip]
        · rw [hport₀, hport₁, heqport]
      rw [hnm]
  | front hfirst hlst hid hlist hnext =>
      rw [hlist]
      intro n hn m hm p r hp hr heqip heqport
      rcases List.mem_cons.mp hn with rfl | hn
      · rw [hnew] at hp
        cases hp
        rcases List.mem_cons.mp hm with rfl | hm
        · rfl
        · exact absurd ⟨heqip.symm, heqport.symm⟩ (hfirst m hm r (hold m hm r hr))
      · rcases List.mem_cons.mp hm with rfl | hm
        · rw [hnew] at hr
          cases hr
          exact absurd ⟨heqip, heqport⟩ (hfirst n hn p (hold n hn p hp))
        · exact h.distinct n hn m hm p r (hold n hn p hp) (hold m hm r hr) heqip heqport

theorem IdInv.registered {s s₁ s' : State} {tr : List Event} (h : IdInv s tr) {peer : Nat} {ip : Text}
    {port : Int} {nslabs id : Nat} {addr : BitVec 64} {q : ProducerInfo}
    (hgrows : MapGrows s s₁ (hash ip port) id) (hreg : Registered s s' ip port nslabs addr id q)
    (hmap : s'.producerMap = s₁.producerMap) (hpid : s'.producerId = s₁.producerId) :
    IdInv s' (tr ++ (mapFaults id ++ [.added ip port q.id, .done peer])) := by
  have hqid := h.registered_id hgrows hreg
  have hnew := hreg.cell_new
  have hold : ∀ n ∈ s.list, ∀ p, s'.producers.cell n.producer = some p →
      s.producers.cell n.producer = some p := by
    intro n hn p hp
    rwa [hreg.cell_listed h.listInv hn] at hp
  have hq : 1 ≤ q.id ∧ q.id < s'.producerId ∧ s'.producerMap q.id = hash q.ip q.port := by
    rw [hqid, hmap, hpid, hreg.ip_eq, hreg.port_eq]
    exact ⟨hgrows.pos, hgrows.lt, hgrows.entry⟩
  have hlisted : ∀ n ∈ s.list, ∀ p, s'.producers.cell n.producer = some p →
      1 ≤ p.id ∧ p.id < s'.producerId ∧ s'.producerMap p.id = hash p.ip p.port := by
    intro n hn p hp
    obtain ⟨h1, hlt, hentry⟩ := h.listed n hn p (hold n hn p hp)
    rw [hmap, hpid, hgrows.old p.id hlt]
    exact ⟨h1, Nat.lt_of_lt_of_le hlt hgrows.le, hentry⟩
  refine ⟨hreg.listInv h.listInv, ?_, h.registered_distinct hreg, ?_, ?_, ?_⟩
  · intro n hn p hp
    cases hreg.enlisted with
    | unlisted hport hid hlist =>
        rw [hlist] at hn
        exact hlisted n hn p hp
    | takeover node r hnode hcell hip hport hlst hid hlist =>
        rw [hlist] at hn
        obtain ⟨m, hm, rfl⟩ := List.mem_map.mp hn
        split at hp
        · rw [hnew] at hp
          cases hp
          exact hq
        · exact hlisted m hm p hp
    | front hfirst hlst hid hlist =>
        rw [hlist] at hn
        rcases List.mem_cons.mp hn with rfl | hn
        · rw [hnew] at hp
          cases hp
          exact hq
        · exact hlisted n hn p hp
  · rw [hmap, hpid]
    exact hgrows.inj
  · intro ip' port' id' hmem
    rcases List.mem_append.mp hmem with hmem | hmem
    · obtain ⟨h1, hlt, hentry⟩ := h.added ip' port' id' hmem
      rw [hmap, hpid, hgrows.old id' hlt]
      exact ⟨h1, Nat.lt_of_lt_of_le hlt hgrows.le, hentry⟩
    · rcases List.mem_append.mp hmem with hmem | hmem
      · unfold mapFaults at hmem
        split at hmem <;> simp at hmem
      · simp only [List.mem_cons, Event.added.injEq, reduceCtorEq, List.not_mem_nil, or_false] at hmem
        obtain ⟨rfl, rfl, rfl⟩ := hmem
        rw [← hreg.ip_eq, ← hreg.port_eq]
        exact hq
  · intro i hi hlt
    rw [hpid] at hlt
    rcases hgrows.new i hlt with hlt | rfl
    · obtain ⟨ip', port', hmem⟩ := h.counted i hi hlt
      exact ⟨ip', port', List.mem_append_left _ hmem⟩
    · exact ⟨ip, port, by simp [hqid]⟩

/-- As long as the trace names few endpoints, the invariant survives a message. -/
theorem IdInv.onCompletion {s : State} {tr : List Event} (h : IdInv s tr) (hpos : 1 ≤ s.producerId)
    (hfew : (endpoints tr).toFinset.card < maxProducer) (m : Message) :
    IdInv (onCompletion s m).1 (tr ++ (onCompletion s m).2) ∧
      1 ≤ (Coordinator.onCompletion s m).1.producerId := by
  rcases onCompletion_cases h.listInv m with ⟨hshrinks, hevs⟩ | hreg
  · exact ⟨h.shrinks hshrinks hevs, by rw [hshrinks.producerId]; exact hpos⟩
  · obtain ⟨peer, ip, port, nslabs, addr, rdmakey, s₁, s', id, q, rfl, hget, hres, hreg, hmap, hid⟩ :=
      hreg
    have hle := h.producerId_le
    have hgrows := h.mapGrows hpos (by omega) hget
    rw [hres]
    refine ⟨h.registered hgrows hreg hmap hid, ?_⟩
    show 1 ≤ s'.producerId
    have := hgrows.le
    omega

theorem endpoints_card_le (tr evs : List Event) :
    (endpoints tr).toFinset.card ≤ (endpoints (tr ++ evs)).toFinset.card := by
  apply Finset.card_le_card
  intro e he
  simp only [endpoints, List.filterMap_append, List.toFinset_append, Finset.mem_union] at he ⊢
  exact .inl he

theorem idInv_of_exec {s : State} {tr : List Event}
    (h : coordinator.Exec (fun _ _ => True) s tr)
    (hfew : (endpoints tr).toFinset.card < maxProducer) : IdInv s tr ∧ 1 ≤ s.producerId := by
  refine h.invariant (I := fun s tr => (endpoints tr).toFinset.card < maxProducer →
    IdInv s tr ∧ 1 ≤ s.producerId) ?_ ?_ hfew
  · rintro s rfl _
    exact ⟨idInv_init, Nat.le_refl _⟩
  · intro s tr m s' evs ih _ hs hfew'
    have hle := endpoints_card_le tr evs
    obtain ⟨hinv, hpos⟩ := ih (by omega)
    change (if s.halted then none else some (onCompletion s m)) = _ at hs
    split at hs
    · cases hs
    · have hres : onCompletion s m = (s', evs) := by simpa using hs
      have hnext := hinv.onCompletion hpos (by omega) m
      rw [hres] at hnext
      exact hnext

/-- In every run with fewer than `MAX_PRODUCER` endpoints: an endpoint has at most one
node, an id on the list belongs to one endpoint, and all registrations of an endpoint
got the same id. Releases and grants may come in between, and so may registrations
without a port and removals of superseded registrations. -/
theorem producer_identity {s : State} {tr : List Event}
    (h : coordinator.Exec (fun _ _ => True) s tr)
    (hfew : (endpoints tr).toFinset.card < maxProducer) :
    (s.list.Pairwise fun n m => endpointOf s n ≠ endpointOf s m) ∧
    (∀ n ∈ s.list, ∀ m ∈ s.list, idOf s n = idOf s m → endpointOf s n = endpointOf s m) ∧
    ∀ ip port i j, .added ip port i ∈ tr → .added ip port j ∈ tr → i = j := by
  obtain ⟨hinv, -⟩ := idInv_of_exec h hfew
  refine ⟨?_, ?_, ?_⟩
  · have hnodup : s.list.Nodup := hinv.listInv.nodup.of_map _
    refine hnodup.imp_of_mem ?_
    intro n m hn hm hne heq
    obtain ⟨p, hp, -⟩ := hinv.listInv.live n hn
    obtain ⟨q, hq, -⟩ := hinv.listInv.live m hm
    simp only [endpointOf, hp, hq, Option.map_some, Option.some.injEq, Prod.mk.injEq] at heq
    exact hne (hinv.distinct n hn m hm p q hp hq heq.1 heq.2)
  · intro n hn m hm heq
    obtain ⟨p, hp, -⟩ := hinv.listInv.live n hn
    obtain ⟨q, hq, -⟩ := hinv.listInv.live m hm
    simp only [idOf, hp, hq, Option.map_some, Option.some.injEq] at heq
    obtain ⟨-, -, hmapp⟩ := hinv.listed n hn p hp
    obtain ⟨-, -, hmapq⟩ := hinv.listed m hm q hq
    rw [heq, hmapq] at hmapp
    obtain ⟨hip, hport⟩ := hash_inj.mp hmapp
    simp [endpointOf, hp, hq, hip, hport]
  · intro ip port i j hi hj
    obtain ⟨hi1, hilt, hmapi⟩ := hinv.added ip port i hi
    obtain ⟨hj1, hjlt, hmapj⟩ := hinv.added ip port j hj
    exact hinv.mapInj i j hi1 hilt hj1 hjlt (by rw [hmapi, hmapj])

/-- Two producers register, the first one leaves and comes back, and registers once
more while it is listed. -/
def sampleRegistrations : List Message :=
  [.producerAdd 0 ['a'] 9400 4 0#64 7, .producerAdd 1 ['b'] 9400 4 0#64 7, .producerRem 0,
    .producerAdd 2 ['a'] 9400 4 0#64 7, .producerAdd 3 ['a'] 9400 8 0#64 7]

theorem producer_identity_sample :
    (endpoints (coordinator.trace initState sampleRegistrations)).toFinset.card < maxProducer ∧
    ((coordinator.final initState sampleRegistrations).list.Pairwise fun n m =>
      endpointOf (coordinator.final initState sampleRegistrations) n ≠
        endpointOf (coordinator.final initState sampleRegistrations) m) ∧
    ∀ ip port i j,
      .added ip port i ∈ coordinator.trace initState sampleRegistrations →
      .added ip port j ∈ coordinator.trace initState sampleRegistrations → i = j := by
  have hrun : coordinator.Exec (fun _ _ => True) (coordinator.final initState sampleRegistrations)
      (coordinator.trace initState sampleRegistrations) :=
    System.exec_final rfl (System.meets_of_forall (fun _ _ _ => trivial) _)
  have hfew : (endpoints (coordinator.trace initState sampleRegistrations)).toFinset.card <
      maxProducer := by
    decide
  obtain ⟨hdistinct, -, hids⟩ := producer_identity hrun hfew
  exact ⟨hfew, hdistinct, hids⟩

example : (coordinator.trace initState sampleRegistrations).filterMap (fun e =>
      match e with
      | .added ip _ id => some (ip, id)
      | _ => none) =
    [(['a'], 1), (['b'], 2), (['a'], 1), (['a'], 1)] := by
  decide

end Memtrade.Coordinator

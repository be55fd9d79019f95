import Memtrade.Coordinator.Operations

/-!
# The producer list

What the messages do to the list and to the structs on it. A struct is found by
its node, its endpoint or its id; granting and releasing slabs change none of them.
-/

namespace Memtrade.Coordinator

open CText

/-! ## Identity of a struct -/

/-- The fields by which a producer is found. -/
structure SameIdentity (p q : ProducerInfo) : Prop where
  lstptr : q.lstptr = p.lstptr
  ip : q.ip = p.ip
  port : q.port = p.port
  id : q.id = p.id

theorem SameIdentity.refl (p : ProducerInfo) : SameIdentity p p := ⟨rfl, rfl, rfl, rfl⟩

theorem SameIdentity.trans {p q r : ProducerInfo} (h : SameIdentity p q) (h' : SameIdentity q r) :
    SameIdentity p r :=
  ⟨h'.lstptr.trans h.lstptr, h'.ip.trans h.ip, h'.port.trans h.port, h'.id.trans h.id⟩

theorem freeSlabs_sameIdentity (count : Nat) (slab : Int) (p : ProducerInfo) :
    SameIdentity p (freeSlabs count slab p) := by
  induction count generalizing slab p with
  | zero => exact .refl p
  | succ count ih =>
      unfold freeSlabs
      refine SameIdentity.trans ?_ (ih (slab + 1) _)
      exact ⟨rfl, rfl, rfl, rfl⟩

/-! ## The producer list -/

/-- The nodes are distinct, and the struct of each points back at its node. -/
structure ListInv (s : State) : Prop where
  nodup : (s.list.map Node.addr).Nodup
  fresh : ∀ n ∈ s.list, n.addr < s.nextNode
  live : ∀ n ∈ s.list, ∃ p, s.producers.cell n.producer = some p ∧ p.lstptr = some n.addr

namespace ListInv

variable {s s' : State}

theorem eq_of_addr (h : ListInv s) {n m : Node} (hn : n ∈ s.list) (hm : m ∈ s.list)
    (haddr : n.addr = m.addr) : n = m :=
  List.inj_on_of_nodup_map h.nodup hn hm haddr

theorem eq_of_producer (h : ListInv s) {n m : Node} (hn : n ∈ s.list) (hm : m ∈ s.list)
    (hptr : n.producer = m.producer) : n = m := by
  obtain ⟨p, hp, hpl⟩ := h.live n hn
  obtain ⟨q, hq, hql⟩ := h.live m hm
  rw [hptr, hq] at hp
  cases hp
  rw [hpl] at hql
  exact h.eq_of_addr hn hm (by simpa using hql)

end ListInv

theorem findListed_some {s : State} {test : ProducerInfo → Bool} {n : Node}
    (h : findListed s test = some n) :
    n ∈ s.list ∧ ∃ p, s.producers.cell n.producer = some p ∧ test p = true := by
  have htest := List.find?_some h
  exact ⟨List.mem_of_find?_eq_some h, (Option.any_eq_true _ _).mp htest⟩

theorem findListed_none {s : State} {test : ProducerInfo → Bool} (h : findListed s test = none)
    {n : Node} (hn : n ∈ s.list) {p : ProducerInfo} (hp : s.producers.cell n.producer = some p) :
    test p = false := by
  have htest := List.find?_eq_none.mp h n hn
  simpa [hp] using htest

theorem sameEndpoint_iff {ip : Text} {port : Int} {p : ProducerInfo} :
    sameEndpoint ip port p = true ↔ p.ip = ip ∧ p.port = port := by
  simp [sameEndpoint]

/-! ## Registration -/

/-- How the struct of a new registration comes onto the list. -/
inductive Enlisted (s s' : State) (ptr id : Nat) (q : ProducerInfo) : Prop where
  | unlisted (hport : q.port = 0) (hid : q.id = id) (hlist : s'.list = s.list)
      (hnext : s'.nextNode = s.nextNode)
  | takeover (node : Node) (r : ProducerInfo) (hnode : node ∈ s.list)
      (hcell : s.producers.cell node.producer = some r) (hip : r.ip = q.ip) (hport : r.port = q.port)
      (hlst : q.lstptr = r.lstptr) (hid : q.id = r.id)
      (hlist : s'.list =
        s.list.map fun n => if n.addr = node.addr then { n with producer := ptr } else n)
      (hnext : s'.nextNode = s.nextNode)
  | front (hnew : ∀ n ∈ s.list, ∀ r, s.producers.cell n.producer = some r →
        ¬ (r.ip = q.ip ∧ r.port = q.port))
      (hlst : q.lstptr = some s.nextNode) (hid : q.id = id)
      (hlist : s'.list = ⟨s.nextNode, ptr⟩ :: s.list) (hnext : s'.nextNode = s.nextNode + 1)

/-- A registration that went through: the new struct, and what is left as it was. -/
structure Registered (s s' : State) (ip : Text) (port : Int) (nslabs : Nat) (addr : BitVec 64)
    (id : Nat) (q : ProducerInfo) : Prop where
  next : s'.producers.next = s.producers.next + 1
  cells : ∀ i, s'.producers.cell i = if i = s.producers.next then some q else s.producers.cell i
  ip_eq : q.ip = ip
  port_eq : q.port = port
  nslabs_eq : q.nslabs = nslabs
  available_eq : q.availableSlabs = nslabs
  memaddr_eq : q.memaddr = addr
  flag_eq : q.slabAvailabilityFlag = initBitmap nslabs
  grants_eq : s'.grants = s.grants
  halted_eq : s'.halted = s.halted
  enlisted : Enlisted s s' s.producers.next id q

theorem Registered.cell_new {s s' : State} {ip : Text} {port : Int} {nslabs id : Nat}
    {addr : BitVec 64} {q : ProducerInfo} (hreg : Registered s s' ip port nslabs addr id q) :
    s'.producers.cell s.producers.next = some q := by
  rw [hreg.cells, if_pos rfl]

theorem Registered.cell_listed {s s' : State} {ip : Text} {port : Int} {nslabs id : Nat}
    {addr : BitVec 64} {q : ProducerInfo} (hreg : Registered s s' ip port nslabs addr id q)
    (hinv : ListInv s) {n : Node} (hn : n ∈ s.list) :
    s'.producers.cell n.producer = s.producers.cell n.producer := by
  obtain ⟨p, hp, -⟩ := hinv.live n hn
  have hlt := Heap.lt_next hp
  rw [hreg.cells, if_neg (by omega)]

theorem producerlistAdd_enlisted (s : State) (ptr : Nat) (p : ProducerInfo) :
    Enlisted s (producerlistAdd s ptr p).1 ptr p.id (producerlistAdd s ptr p).2 := by
  unfold producerlistAdd
  split
  · rename_i hport
    exact .unlisted hport rfl rfl rfl
  · cases hfind : findListed s (sameEndpoint p.ip p.port) with
    | some node =>
        obtain ⟨hmem, r, hr, hsame⟩ := findListed_some hfind
        obtain ⟨hip, hport⟩ := sameEndpoint_iff.mp hsame
        exact .takeover node r hmem hr hip hport (by simp [hr]) (by simp [hr]) rfl rfl
    | none =>
        refine .front ?_ rfl rfl rfl rfl
        intro n hn r hr hsame
        have htest := findListed_none hfind hn hr
        rw [sameEndpoint_iff.mpr hsame] at htest
        cases htest

theorem producerlistAdd_frame {s : State} {ptr : Nat} {p : ProducerInfo}
    (hp : s.producers.cell ptr = some p) :
    (∃ l i, (producerlistAdd s ptr p).2 = { p with lstptr := l, id := i }) ∧
      (producerlistAdd s ptr p).1 = { s with
        producers := s.producers.write ptr (producerlistAdd s ptr p).2
        list := (producerlistAdd s ptr p).1.list
        nextNode := (producerlistAdd s ptr p).1.nextNode } := by
  unfold producerlistAdd
  split
  · exact ⟨⟨p.lstptr, p.id, rfl⟩, by rw [Heap.write_self hp]⟩
  · split
    · exact ⟨⟨_, _, rfl⟩, rfl⟩
    · exact ⟨⟨_, p.id, rfl⟩, rfl⟩

theorem getProducerId_frame (s : State) (ip : Text) (port : Int) :
    (getProducerId s ip port).1 = { s with
      producerMap := (getProducerId s ip port).1.producerMap
      producerId := (getProducerId s ip port).1.producerId } := by
  unfold getProducerId
  split <;> rfl

theorem Enlisted.of_cells {s t s' : State} {ptr id : Nat} {q : ProducerInfo}
    (h : Enlisted t s' ptr id q) (hlist : t.list = s.list) (hnext : t.nextNode = s.nextNode)
    (hcells : ∀ n ∈ s.list, t.producers.cell n.producer = s.producers.cell n.producer) :
    Enlisted s s' ptr id q := by
  cases h with
  | unlisted hport hid hl hn => exact .unlisted hport hid (hl.trans hlist) (hn.trans hnext)
  | takeover node r hnode hcell hip hport hlst hid hl hn =>
      rw [hlist] at hnode hl
      rw [hcells node hnode] at hcell
      exact .takeover node r hnode hcell hip hport hlst hid hl (hn.trans hnext)
  | front hnew hlst hid hl hn =>
      rw [hlist] at hnew hl
      rw [hnext] at hlst hl hn
      refine .front (fun n hmem r hr => hnew n hmem r ?_) hlst hid hl hn
      rw [hcells n hmem, hr]

/-- The struct is allocated, the peer owns it, and it goes onto the list. -/
theorem registered_of_producerlistAdd {s : State} (hinv : ListInv s) {m : Nat → Text} {k : Nat}
    {p : ProducerInfo} (peer nslabs : Nat) (hn : p.nslabs = nslabs) (ha : p.availableSlabs = nslabs)
    (hf : p.slabAvailabilityFlag = initBitmap nslabs) {t : State}
    (ht : t = { s with
      producerMap := m, producerId := k
      producers := s.producers.alloc p
      peers := Function.update s.peers peer (some s.producers.next) }) :
    Registered s (producerlistAdd t s.producers.next p).1 p.ip p.port nslabs p.memaddr p.id
        (producerlistAdd t s.producers.next p).2 ∧
      (producerlistAdd t s.producers.next p).1.producerMap = m ∧
      (producerlistAdd t s.producers.next p).1.producerId = k := by
  have hcell : t.producers.cell s.producers.next = some p := by
    rw [ht]
    simp [Heap.cell_alloc]
  have hcells : ∀ n ∈ s.list, t.producers.cell n.producer = s.producers.cell n.producer := by
    intro n hmem
    obtain ⟨r, hr, -⟩ := hinv.live n hmem
    have hlt := Heap.lt_next hr
    rw [ht, Heap.cell_alloc, if_neg (by omega)]
  have henl := (producerlistAdd_enlisted t s.producers.next p).of_cells (s := s)
    (by rw [ht]) (by rw [ht]) hcells
  obtain ⟨⟨l, i, hq⟩, hs'⟩ := producerlistAdd_frame hcell
  refine ⟨⟨?_, ?_, ?_, ?_, ?_, ?_, ?_, ?_, ?_, ?_, henl⟩, ?_, ?_⟩
  · rw [hs', ht]
    rfl
  · intro j
    rw [hs']
    show (t.producers.write s.producers.next _).cell j = _
    rw [Heap.cell_write hcell]
    split
    · rfl
    · rename_i hne
      rw [ht, Heap.cell_alloc, if_neg hne]
  · rw [hq]
  · rw [hq]
  · rw [hq, ← hn]
  · rw [hq, ← ha]
  · rw [hq]
  · rw [hq, ← hf]
  · rw [hs', ht]
  · rw [hs', ht]
  · rw [hs', ht]
  · rw [hs', ht]

theorem onRecvProducerAdd_cases {s : State} (hinv : ListInv s) (peer : Nat) (ip : Text) (port : Int)
    (nslabs : Fin (2 ^ 31)) (addr : BitVec 64) (rdmakey : Nat) :
    onRecvProducerAdd s peer ip port nslabs addr rdmakey = fail s .assertPeer ∨
    ∃ s₁ s' id q, getProducerId s ip port = (s₁, id) ∧
      onRecvProducerAdd s peer ip port nslabs addr rdmakey =
        (s', mapFaults id ++ [.added ip port q.id, .done peer]) ∧
      Registered s s' ip port nslabs addr id q ∧
      s'.producerMap = s₁.producerMap ∧ s'.producerId = s₁.producerId := by
  unfold onRecvProducerAdd
  cases hpeer : s.peers peer with
  | some ptr => exact .inl rfl
  | none =>
      have hframe := getProducerId_frame s ip port
      generalize hget : getProducerId s ip port = r at hframe
      obtain ⟨s₁, id⟩ := r
      change s₁ = _ at hframe
      have hnext : s₁.producers.next = s.producers.next := by rw [hframe]
      obtain ⟨hreg, hmap, hid⟩ := registered_of_producerlistAdd hinv
        (p := ⟨none, ip, port, rdmakey, nslabs, nslabs, addr, id, initBitmap nslabs⟩)
        peer nslabs rfl rfl rfl
        (t := { s₁ with
          producers := s₁.producers.alloc
            ⟨none, ip, port, rdmakey, nslabs, nslabs, addr, id, initBitmap nslabs⟩
          peers := Function.update s₁.peers peer (some s₁.producers.next) })
        (by rw [hframe])
      rw [← hnext] at hreg hmap hid
      refine .inr ⟨s₁, _, id, _, rfl, ?_, hreg, hmap, hid⟩
      show (_, mapFaults id ++
        [Event.added (producerlistAdd _ _ _).2.ip (producerlistAdd _ _ _).2.port _, _]) = _
      rw [hreg.ip_eq, hreg.port_eq]
      rfl

theorem Registered.listInv {s s' : State} {ip : Text} {port : Int} {nslabs id : Nat}
    {addr : BitVec 64} {q : ProducerInfo} (hreg : Registered s s' ip port nslabs addr id q)
    (hinv : ListInv s) : ListInv s' := by
  have hold : ∀ n ∈ s.list, ∃ p, s'.producers.cell n.producer = some p ∧ p.lstptr = some n.addr := by
    intro n hn
    rw [hreg.cell_listed hinv hn]
    exact hinv.live n hn
  have hnew := hreg.cell_new
  cases hreg.enlisted with
  | unlisted hport hid hlist hnext =>
      refine ⟨by rw [hlist]; exact hinv.nodup, by rw [hlist, hnext]; exact hinv.fresh, ?_⟩
      rw [hlist]
      exact hold
  | takeover node r hnode hcell hip hport hlst hid hlist hnext =>
      obtain ⟨r', hr', hrl⟩ := hinv.live node hnode
      rw [hcell] at hr'
      cases hr'
      refine ⟨?_, ?_, ?_⟩
      · have haddr : (s'.list.map Node.addr) = s.list.map Node.addr := by
          rw [hlist, List.map_map]
          apply List.map_congr_left
          intro n _
          show (if n.addr = node.addr then _ else n : Node).addr = n.addr
          split <;> rfl
        rw [haddr]
        exact hinv.nodup
      · rw [hlist, hnext]
        intro n hn
        obtain ⟨m, hm, rfl⟩ := List.mem_map.mp hn
        split <;> exact hinv.fresh m hm
      · rw [hlist]
        intro n hn
        obtain ⟨m, hm, rfl⟩ := List.mem_map.mp hn
        split
        · rename_i haddr
          exact ⟨q, hnew, by rw [hlst, hrl, haddr]⟩
        · exact hold m hm
  | front hfirst hlst hid hlist hnext =>
      refine ⟨?_, ?_, ?_⟩
      · rw [hlist, List.map_cons, List.nodup_cons]
        refine ⟨?_, hinv.nodup⟩
        intro hmem
        obtain ⟨m, hm, haddr⟩ := List.mem_map.mp hmem
        have := hinv.fresh m hm
        simp only at haddr
        omega
      · rw [hlist, hnext]
        intro n hn
        rcases List.mem_cons.mp hn with rfl | hn
        · exact Nat.lt_succ_self _
        · exact Nat.lt_succ_of_lt (hinv.fresh n hn)
      · rw [hlist]
        intro n hn
        rcases List.mem_cons.mp hn with rfl | hn
        · exact ⟨q, hnew, hlst⟩
        · exact hold n hn

/-! ## Steps that list nothing new -/

/-- Nodes may go, and the structs of those that stay keep their identity. -/
structure Shrinks (s s' : State) : Prop where
  list : s'.list.Sublist s.list
  cells : ∀ n ∈ s'.list, ∀ p, s.producers.cell n.producer = some p →
    ∃ q, s'.producers.cell n.producer = some q ∧ SameIdentity p q
  nextNode : s'.nextNode = s.nextNode
  producerMap : s'.producerMap = s.producerMap
  producerId : s'.producerId = s.producerId

theorem Shrinks.of_eq {s s' : State} (hlist : s'.list = s.list) (hcells : s'.producers = s.producers)
    (hnext : s'.nextNode = s.nextNode) (hmap : s'.producerMap = s.producerMap)
    (hid : s'.producerId = s.producerId) : Shrinks s s' :=
  ⟨hlist ▸ List.Sublist.refl _, fun _ _ p hp => ⟨p, hcells ▸ hp, .refl p⟩, hnext, hmap, hid⟩

theorem Shrinks.trans {s t u : State} (h : Shrinks s t) (h' : Shrinks t u) : Shrinks s u where
  list := h'.list.trans h.list
  cells n hn p hp := by
    obtain ⟨q, hq, hpq⟩ := h.cells n (h'.list.subset hn) p hp
    obtain ⟨r, hr, hqr⟩ := h'.cells n hn q hq
    exact ⟨r, hr, hpq.trans hqr⟩
  nextNode := h'.nextNode.trans h.nextNode
  producerMap := h'.producerMap.trans h.producerMap
  producerId := h'.producerId.trans h.producerId

theorem Shrinks.of_write {s s' : State} {ptr : Nat} {p q : ProducerInfo}
    (hp : s.producers.cell ptr = some p) (hid : SameIdentity p q)
    (hcells : s'.producers = s.producers.write ptr q) (hlist : s'.list = s.list)
    (hnext : s'.nextNode = s.nextNode) (hmap : s'.producerMap = s.producerMap)
    (hpid : s'.producerId = s.producerId) : Shrinks s s' := by
  refine ⟨hlist ▸ List.Sublist.refl _, ?_, hnext, hmap, hpid⟩
  intro n _ r hr
  rw [hcells, Heap.cell_write hp]
  by_cases hptr : n.producer = ptr
  · rw [hptr, hp] at hr
    cases hr
    exact ⟨q, by simp [hptr], hid⟩
  · exact ⟨r, by simp [hptr, hr], .refl r⟩

theorem Shrinks.listInv {s s' : State} (h : Shrinks s s') (hinv : ListInv s) : ListInv s' where
  nodup := (h.list.map _).nodup hinv.nodup
  fresh n hn := by
    rw [h.nextNode]
    exact hinv.fresh n (h.list.subset hn)
  live n hn := by
    obtain ⟨p, hp, hpl⟩ := hinv.live n (h.list.subset hn)
    obtain ⟨q, hq, hpq⟩ := h.cells n hn p hp
    exact ⟨q, hq, by rw [hpq.lstptr, hpl]⟩

theorem producerlistRemove_cases (s : State) (lst : Option Nat) :
    producerlistRemove s lst = .error .dangling ∨
    ∃ node ∈ s.list, lst = some node.addr ∧ producerlistRemove s lst = .ok { s with
      producers := s.producers.free node.producer
      list := s.list.filter fun n => n.addr != node.addr } := by
  unfold producerlistRemove
  cases lst with
  | none => exact .inl rfl
  | some addr =>
      cases hfind : s.list.find? fun n => n.addr == addr with
      | none =>
          left
          simp only [hfind]
      | some node =>
          have haddr : node.addr = addr := by simpa using List.find?_some hfind
          subst haddr
          simp only [hfind]
          exact .inr ⟨node, List.mem_of_find?_eq_some hfind, rfl, rfl⟩

theorem Shrinks.of_remove {s : State} (hinv : ListInv s) {node : Node} (hnode : node ∈ s.list) :
    Shrinks s { s with
      producers := s.producers.free node.producer
      list := s.list.filter fun n => n.addr != node.addr } := by
  refine ⟨List.filter_sublist, ?_, rfl, rfl, rfl⟩
  intro n hn r hr
  refine ⟨r, ?_, .refl r⟩
  obtain ⟨hmem, hne⟩ := List.mem_filter.mp hn
  rw [Heap.cell_free, if_neg, hr]
  intro h
  have heq := hinv.eq_of_producer hmem hnode h
  simp [heq] at hne

/-- What `MSG_PRODUCER_REM` does: it halts, or one node goes and the structs of the
others stay as they are. -/
theorem onRecvProducerRem_cases {s : State} (hinv : ListInv s) (peer : Nat) :
    (∃ t, onRecvProducerRem s peer = fail t .dangling ∧ Shrinks s t) ∨
    ∃ s', onRecvProducerRem s peer = (s', [.done peer]) ∧ Shrinks s s' ∧
      (∀ n ∈ s'.list, s'.producers.cell n.producer = s.producers.cell n.producer) ∧
      s'.halted = s.halted := by
  unfold onRecvProducerRem
  cases hpeer : s.peers peer with
  | none => exact .inl ⟨s, rfl, .of_eq rfl rfl rfl rfl rfl⟩
  | some ptr =>
      cases hp : s.producers.cell ptr with
      | none =>
          simp only [hp]
          exact .inl ⟨s, rfl, .of_eq rfl rfl rfl rfl rfl⟩
      | some p =>
          simp only [hp]
          have hid : SameIdentity p { p with nslabs := 0, availableSlabs := 0 } :=
            ⟨rfl, rfl, rfl, rfl⟩
          generalize ({ p with nslabs := 0, availableSlabs := 0 } : ProducerInfo) = q at hid
          generalize ht : { s with
            producers := s.producers.write ptr q
            peers := Function.update s.peers peer none } = t
          have hwrite : Shrinks s t := by
            rw [← ht]
            exact .of_write hp hid rfl rfl rfl rfl rfl
          rcases producerlistRemove_cases t p.lstptr with herr | ⟨node, hnode, hlst, hok⟩
          · simp only [herr]
            exact .inl ⟨t, rfl, hwrite⟩
          · simp only [hok]
            refine .inr ⟨_, rfl, ?_, ?_, ?_⟩
            · exact hwrite.trans (.of_remove (hwrite.listInv hinv) hnode)
            · -- a struct that stays is neither the one removed nor the one written
              intro n hn
              obtain ⟨hmem, hne⟩ := List.mem_filter.mp hn
              simp only [bne_iff_ne, ne_eq] at hne
              have hlist : t.list = s.list := by rw [← ht]
              rw [hlist] at hmem hnode
              have hremoved : n.producer ≠ node.producer := by
                intro h
                exact hne (by rw [hinv.eq_of_producer hmem hnode h])
              have hwritten : n.producer ≠ ptr := by
                intro h
                obtain ⟨r, hr, hrl⟩ := hinv.live n hmem
                rw [h, hp] at hr
                cases hr
                rw [hlst] at hrl
                simp only [Option.some.injEq] at hrl
                exact hne hrl.symm
              rw [Heap.cell_free, if_neg hremoved, ← ht, Heap.cell_write hp, if_neg hwritten]
            · show t.halted = s.halted
              rw [← ht]

/-! ## Granting and releasing -/

theorem allocFrom_some {s s' : State} {peer requested : Nat} {ptrs : List (Option Nat)}
    {p : ProducerInfo} {g : Grant} (h : allocFrom s peer requested ptrs = .ok (some (s', p, g))) :
    ∃ ptr slab, some ptr ∈ ptrs ∧ s.producers.cell ptr = some p ∧ p.availableSlabs > 0 ∧
      findAvailableSlabs p = some slab ∧ (s', g) = grantSlabs s peer ptr p slab requested := by
  induction ptrs with
  | nil => cases h
  | cons o rest ih =>
      cases o with
      | none => cases h
      | some ptr =>
          unfold allocFrom at h
          cases hp : s.producers.cell ptr with
          | none =>
              simp only [hp] at h
              cases h
          | some r =>
              simp only [hp] at h
              split at h
              · rename_i havail
                cases hslab : findAvailableSlabs r with
                | none =>
                    simp only [hslab] at h
                    cases h
                | some slab =>
                    simp only [hslab, Except.ok.injEq, Option.some.injEq, Prod.mk.injEq] at h
                    obtain ⟨hs', rfl, hg⟩ := h
                    exact ⟨ptr, slab, by simp, hp, havail, hslab, Prod.ext hs'.symm hg.symm⟩
              · obtain ⟨ptr', slab, hmem, hrest⟩ := ih h
                exact ⟨ptr', slab, List.mem_cons_of_mem _ hmem, hrest⟩

theorem grantSlabs_shrinks {s : State} {ptr : Nat} {p : ProducerInfo}
    (hp : s.producers.cell ptr = some p) (peer slab requested : Nat) :
    Shrinks s (grantSlabs s peer ptr p slab requested).1 := by
  refine .of_write hp ?_ rfl rfl rfl rfl rfl
  exact ⟨rfl, rfl, rfl, rfl⟩

def AddsNone (evs : List Event) : Prop := ∀ ip port id, .added ip port id ∉ evs

theorem slabsAddLoop_shrinks (peer fuel requested : Nat) (s : State) :
    Shrinks s (slabsAddLoop peer fuel requested s).1 ∧
      AddsNone (slabsAddLoop peer fuel requested s).2 := by
  have hstay : Shrinks s s := .of_eq rfl rfl rfl rfl rfl
  induction fuel generalizing requested s with
  | zero => exact ⟨hstay, by simp [slabsAddLoop, AddsNone]⟩
  | succ fuel ih =>
      unfold slabsAddLoop
      split
      · exact ⟨hstay, by simp [AddsNone]⟩
      · split
        · exact ⟨.of_eq rfl rfl rfl rfl rfl, by simp [fail, AddsNone]⟩
        · exact ⟨hstay, by simp [AddsNone]⟩
        · rename_i s' p g halloc
          obtain ⟨ptr, slab, -, hp, -, -, hgrant⟩ := allocFrom_some halloc
          have hs' : s' = (grantSlabs s peer ptr p slab requested).1 := by rw [← hgrant]
          have hstep : Shrinks s s' := hs' ▸ grantSlabs_shrinks hp peer slab requested
          obtain ⟨hrest, hevs⟩ := ih (requested - g.nslabs) s' (.of_eq rfl rfl rfl rfl rfl)
          refine ⟨hstep.trans hrest, ?_⟩
          intro ip port id hmem
          rcases List.mem_cons.mp hmem with h | h
          · cases h
          · exact hevs ip port id h

theorem forget_frame (s : State) (g : Option Grant) :
    forget s g = { s with grants := (forget s g).grants } := by
  cases g <;> rfl

theorem AddsNone.append {evs evs' : List Event} (h : AddsNone evs) (h' : AddsNone evs') :
    AddsNone (evs ++ evs') := by
  intro ip port id hmem
  rcases List.mem_append.mp hmem with hmem | hmem
  · exact h ip port id hmem
  · exact h' ip port id hmem

theorem onRecvSlabsRem_shrinks (s : State) (peer : Nat) (id : Int) (addr : BitVec 64) (nslabs : Nat) :
    Shrinks s (onRecvSlabsRem s peer id addr nslabs).1 ∧
      AddsNone (onRecvSlabsRem s peer id addr nslabs).2 := by
  unfold onRecvSlabsRem
  have hframe := forget_frame s (releasedGrant s peer id addr nslabs)
  have hforget : Shrinks s (forget s (releasedGrant s peer id addr nslabs)) := by
    rw [hframe]
    exact .of_eq rfl rfl rfl rfl rfl
  generalize forget s (releasedGrant s peer id addr nslabs) = t at hforget
  simp only []
  split
  · exact ⟨hforget, by simp [AddsNone]⟩
  · split
    · exact ⟨hforget.trans (.of_eq rfl rfl rfl rfl rfl), by simp [fail, AddsNone]⟩
    · rename_i p hp
      have hid := freeSlabs_sameIdentity nslabs (slabFromAddr p addr) p
      refine ⟨hforget.trans (.of_write hp hid rfl rfl rfl rfl rfl), AddsNone.append ?_ ?_⟩
      · unfold freeFaults
        split <;> simp [AddsNone]
      · simp [AddsNone]

theorem onCompletion_cases {s : State} (hinv : ListInv s) (m : Message) :
    (Shrinks s (onCompletion s m).1 ∧ AddsNone (onCompletion s m).2) ∨
    ∃ peer ip port, ∃ nslabs : Fin (2 ^ 31), ∃ addr rdmakey s₁ s' id q,
      m = .producerAdd peer ip port nslabs addr rdmakey ∧
      getProducerId s ip port = (s₁, id) ∧
      onCompletion s m = (s', mapFaults id ++ [.added ip port q.id, .done peer]) ∧
      Registered s s' ip port nslabs addr id q ∧
      s'.producerMap = s₁.producerMap ∧ s'.producerId = s₁.producerId := by
  cases m with
  | producerAdd peer ip port nslabs addr rdmakey =>
      rcases onRecvProducerAdd_cases hinv peer ip port nslabs addr rdmakey with hfail | hreg
      · left
        simp only [onCompletion, hfail]
        exact ⟨.of_eq rfl rfl rfl rfl rfl, by simp [fail, AddsNone]⟩
      · obtain ⟨s₁, s', id, q, hget, hres, hreg, hmap, hid⟩ := hreg
        exact .inr ⟨peer, ip, port, nslabs, addr, rdmakey, s₁, s', id, q, rfl, hget, hres, hreg,
          hmap, hid⟩
  | producerRem peer =>
      left
      rcases onRecvProducerRem_cases hinv peer with ⟨t, hfail, ht⟩ | ⟨s', hres, hs', -, -⟩
      · simp only [onCompletion, hfail]
        exact ⟨ht.trans (.of_eq rfl rfl rfl rfl rfl), by simp [fail, AddsNone]⟩
      · simp only [onCompletion, hres]
        exact ⟨hs', by simp [AddsNone]⟩
  | slabAdd peer nslabs => exact .inl (slabsAddLoop_shrinks peer (nslabs + 1) nslabs s)
  | slabRem peer id addr nslabs =>
      left
      obtain ⟨hshrinks, hevs⟩ := onRecvSlabsRem_shrinks s peer id addr nslabs
      simp only [onCompletion]
      split
      · exact ⟨hshrinks, hevs⟩
      · exact ⟨hshrinks, hevs.append (by simp [AddsNone])⟩

theorem listInv_init : ListInv initState :=
  ⟨List.nodup_nil, by simp [initState], by simp [initState]⟩

end Memtrade.Coordinator

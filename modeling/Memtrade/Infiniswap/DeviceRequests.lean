import Memtrade.Infiniswap.DeviceMoves

/-!
# Requests of the block device

The steps of `IS_request`, from the submission of a request to the posting of its operation.
-/

namespace Memtrade.Infiniswap

variable {D : Type} {all : List CtxId} {dv dv' : Device D} {tr : List (IoEvent D)}
  {op : RdmaOp CtxId} {r : IoRequest D} {n : Nat} {c : CtxId}

theorem Maps.maps_of_route {m : Maps} {g : Nat} {chunk : Chunk} (h : m.route g = some chunk) :
    m.cbIndexMap g = some chunk.server ∧ m.chunkMapCbChunk g = some chunk.index := by
  unfold route at h
  cases hcb : m.cbIndexMap g with
  | none => simp [hcb] at h
  | some cbIndex =>
      cases hidx : m.chunkMapCbChunk g with
      | none => simp [hcb, hidx] at h
      | some chunkIndex =>
          simp only [hcb, hidx, Option.some.injEq] at h
          subst h
          exact ⟨rfl, rfl⟩

theorem Maps.route_eq {m : Maps} {g : Nat} {chunk : Chunk}
    (hcb : m.cbIndexMap g = some chunk.server) (hidx : m.chunkMapCbChunk g = some chunk.index) :
    m.route g = some chunk := by
  simp [route, hcb, hidx]

/-! ## One turn of a bitmap loop -/

namespace Device

/-- The bits after one load or store that nothing has come between. -/
theorem bitmapTest_groupStep {l : GroupLoop} (hl : dv.unraced l)
    (change : BitVec 32 → Nat → BitVec 32) (chunk : Chunk) (i : Nat) :
    (dv.groupStep change l).1.bitmapTest chunk i =
      if l.word ≠ none ∧ l.array = dv.bitmapG chunk ∧ l.page / 32 = i / 32 then
        wordTest (change (dv.words l.array (l.page / 32)) l.page) i
      else dv.bitmapTest chunk i := by
  unfold unraced at hl
  unfold groupStep
  cases hw : l.word with
  | none => simp
  | some w =>
      rw [hw] at hl
      by_cases harray : l.array = dv.bitmapG chunk
      · have hword := hl (by rw [harray]; rfl)
        by_cases hi : l.page / 32 = i / 32
        · rw [if_pos ⟨by simp, harray, hi⟩, hword]
          simp [bitmapTest, bitmapG, harray, hi]
        · rw [if_neg fun h => hi h.2.2]
          have hne : i / 32 ≠ l.page / 32 := fun heq => hi heq.symm
          have hself : dv.words ⟨chunk, dv.gen chunk⟩ = dv.words l.array := by rw [harray]; rfl
          simp [bitmapTest, bitmapG, harray, hne]
      · rw [if_neg fun h => harray h.2.1]
        have hne : (⟨chunk, dv.gen chunk⟩ : BitmapG) ≠ l.array := fun heq => harray heq.symm
        simp [bitmapTest, bitmapG, hne]

theorem groupStep_eq (dv : Device D) (change : BitVec 32 → Nat → BitVec 32) (l : GroupLoop) :
    (dv.groupStep change l).1 = { dv with words := (dv.groupStep change l).1.words } := by
  unfold groupStep
  split <;> rfl

theorem groupStep_array (dv : Device D) (change : BitVec 32 → Nat → BitVec 32) (l : GroupLoop) :
    (dv.groupStep change l).2.array = l.array := by
  unfold groupStep
  split <;> rfl

/-- A turn of `IS_bitmap_group_clear` sets no bit. -/
theorem bitmapTest_of_clear {l : GroupLoop} (hl : dv.unraced l) {chunk : Chunk} {i : Nat}
    (h : (dv.groupStep wordClear l).1.bitmapTest chunk i = true) :
    dv.bitmapTest chunk i = true := by
  rw [bitmapTest_groupStep hl] at h
  split at h
  case isTrue hcond =>
    rw [wordTest_clear, Bool.and_eq_true] at h
    rw [bitmapTest, ← hcond.2.1, ← hcond.2.2]
    exact h.1
  case isFalse => exact h

/-- A bit that is still set after a turn of `IS_bitmap_group_clear` is yet to come. -/
theorem ahead_of_clear {l : GroupLoop} (hl : dv.unraced l) {chunk : Chunk} {i : Nat}
    (h : (dv.groupStep wordClear l).1.bitmapTest chunk i = true) (harray : l.array = dv.bitmapG chunk)
    (hle : l.page ≤ i) (hlt : i < l.page + l.left) :
    (dv.groupStep wordClear l).2.page ≤ i ∧
      i < (dv.groupStep wordClear l).2.page + (dv.groupStep wordClear l).2.left := by
  rw [bitmapTest_groupStep hl] at h
  unfold groupStep
  cases hw : l.word with
  | none => exact ⟨hle, hlt⟩
  | some w =>
      have hne : i ≠ l.page := by
        intro heq
        rw [if_pos ⟨by simp [hw], harray, by rw [heq]⟩, wordTest_clear, heq] at h
        simp at h
      show l.page + 1 ≤ i ∧ i < l.page + 1 + (l.left - 1)
      omega

end Device

/-! ## `IS_request` goes on -/

/-- What one step of `IS_request` does: bits may be cleared, and a page with its bit set that
was accounted for still is. -/
structure GoesOn (dv : Device D) (r : IoRequest D) (φ : Progress) (dv' : Device D) (φ' : Progress) :
    Prop where
  words : dv' = { dv with words := dv'.words }
  bits : ∀ chunk i, dv'.bitmapTest chunk i = true → dv.bitmapTest chunk i = true
  fits : φ'.Fits r
  accounts : r.data ≠ none → ∀ p chunk, r.Covers p →
    dv.maps.route (p / pagesPerChunk) = some chunk →
    dv'.bitmapTest chunk (p % pagesPerChunk) = true →
    φ.Accounts r p (dv.bitmapG chunk) → φ'.Accounts r p (dv.bitmapG chunk)

namespace GoesOn

variable {φ' : Progress}

/-- A step that only looks at something. -/
theorem look {φ : Progress} (hfits : φ'.Fits r)
    (haccounts : r.data ≠ none → ∀ p chunk, r.Covers p →
      dv.maps.route (p / pagesPerChunk) = some chunk →
      dv.bitmapTest chunk (p % pagesPerChunk) = true →
      φ.Accounts r p (dv.bitmapG chunk) → φ'.Accounts r p (dv.bitmapG chunk)) :
    GoesOn dv r φ dv φ' :=
  ⟨rfl, fun _ _ hbit => hbit, hfits, haccounts⟩

theorem start (h : dv.isRequest r .start = some (dv', φ')) : GoesOn dv r .start dv' φ' := by
  simp only [Device.isRequest] at h
  split at h
  case isTrue hsingle =>
    split at h
    case h_1 hcb =>
      simp only [Option.some.injEq, Prod.mk.injEq] at h
      obtain ⟨rfl, rfl⟩ := h
      refine look trivial ?_
      intro _ p chunk hp hroute _ _
      rw [(page_of_single hsingle hp).1] at hroute
      rw [(Maps.maps_of_route hroute).1] at hcb
      cases hcb
    case h_2 cbIndex hcb =>
      simp only [Option.some.injEq, Prod.mk.injEq] at h
      obtain ⟨rfl, rfl⟩ := h
      refine look hsingle ?_
      intro _ p chunk hp hroute _ _
      rw [(page_of_single hsingle hp).1] at hroute
      rw [(Maps.maps_of_route hroute).1] at hcb
      exact (Option.some.inj hcb).symm
  case isFalse htwo =>
    simp only [Option.some.injEq, Prod.mk.injEq] at h
    obtain ⟨rfl, rfl⟩ := h
    refine look htwo ?_
    intro _ p chunk hp hroute _ _ hg
    rw [hg] at hroute
    exact (Maps.maps_of_route hroute).1

theorem server {cbIndex : Nat} (hfits : gbIndex r = endIndex r)
    (h : dv.isRequest r (.server cbIndex) = some (dv', φ')) :
    GoesOn dv r (.server cbIndex) dv' φ' := by
  simp only [Device.isRequest] at h
  split at h
  case h_1 hidx =>
    simp only [Option.some.injEq, Prod.mk.injEq] at h
    obtain ⟨rfl, rfl⟩ := h
    refine look trivial ?_
    intro _ p chunk hp hroute _ _
    rw [(page_of_single hfits hp).1] at hroute
    rw [(Maps.maps_of_route hroute).2] at hidx
    cases hidx
  case h_2 chunkIndex hidx =>
    simp only [Option.some.injEq, Prod.mk.injEq] at h
    obtain ⟨rfl, rfl⟩ := h
    refine look hfits ?_
    intro _ p chunk hp hroute _ hacc
    rw [(page_of_single hfits hp).1] at hroute
    rw [(Maps.maps_of_route hroute).2] at hidx
    have hserver : cbIndex = chunk.server := hacc
    rw [hserver, ← Option.some.inj hidx]
    rfl

theorem chunk {chunk : Chunk} (hfits : gbIndex r = endIndex r)
    (hok : r.data.isSome = true → dv.maps.rdmaOn = false → dv.bitsClear r)
    (h : dv.isRequest r (.chunk chunk) = some (dv', φ')) : GoesOn dv r (.chunk chunk) dv' φ' := by
  simp only [Device.isRequest] at h
  split at h
  case isTrue =>
    split at h
    case isTrue hdata =>
      simp only [Option.some.injEq, Prod.mk.injEq] at h
      obtain ⟨rfl, rfl⟩ := h
      exact look hfits fun _ _ _ _ _ _ hacc => hacc
    case isFalse hdata =>
      simp only [Option.some.injEq, Prod.mk.injEq] at h
      obtain ⟨rfl, rfl⟩ := h
      have hnone : r.data = none := by simpa using hdata
      exact look ⟨hfits, hnone⟩ fun hwrite => absurd hnone hwrite
  case isFalse hoff =>
    simp only [Option.some.injEq, Prod.mk.injEq] at h
    obtain ⟨rfl, rfl⟩ := h
    refine look trivial ?_
    intro hwrite p chunk' hp hroute hbit _
    have hclear := hok (Option.isSome_iff_ne_none.mpr hwrite) (by simpa using hoff)
    have hfalse := Device.bitsClear_page hclear hp
    rw [Device.trusted_of_route hroute, hbit] at hfalse
    cases hfalse

theorem test {chunk : Chunk} (hfits : gbIndex r = endIndex r ∧ r.data = none)
    (h : dv.isRequest r (.test chunk) = some (dv', φ')) : GoesOn dv r (.test chunk) dv' φ' := by
  simp only [Device.isRequest] at h
  split at h
  case isTrue =>
    simp only [Option.some.injEq, Prod.mk.injEq] at h
    obtain ⟨rfl, rfl⟩ := h
    exact look hfits.1 fun hwrite => absurd hfits.2 hwrite
  case isFalse =>
    simp only [Option.some.injEq, Prod.mk.injEq] at h
    obtain ⟨rfl, rfl⟩ := h
    exact look trivial fun hwrite => absurd hfits.2 hwrite

theorem firstOfTwo {cbIndex : Option Nat} (hfits : gbIndex r ≠ endIndex r)
    (h : dv.isRequest r (.firstOfTwo cbIndex) = some (dv', φ')) :
    GoesOn dv r (.firstOfTwo cbIndex) dv' φ' := by
  simp only [Device.isRequest, Option.some.injEq, Prod.mk.injEq] at h
  obtain ⟨rfl, rfl⟩ := h
  refine look hfits ?_
  intro _ p chunk _ hroute _ hacc
  refine ⟨hacc, ?_⟩
  intro hg
  rw [hg] at hroute
  exact (Maps.maps_of_route hroute).1

/-- The array that a write over two chunks finds is that of the remote chunk, if this is still
on the server that was found before. -/
theorem groupClear_of_route {cbIndex g page len : Nat} {l : GroupLoop}
    (h : dv.groupClear cbIndex g page len = some l) :
    l.page = page ∧ l.left = len ∧
      ∀ chunk, dv.maps.route g = some chunk → cbIndex = chunk.server → l.array = dv.bitmapG chunk := by
  unfold Device.groupClear at h
  split at h
  case h_1 => cases h
  case h_2 chunkIndex hidx =>
    simp only [Option.some.injEq] at h
    subst h
    refine ⟨rfl, rfl, ?_⟩
    intro chunk hroute hserver
    rw [(Maps.maps_of_route hroute).2] at hidx
    rw [hserver, ← Option.some.inj hidx]

theorem bothOfTwo {cbIndex cb2Index : Option Nat} (hfits : gbIndex r ≠ endIndex r)
    (hlen : r.len ≤ maxSglLen) (h : dv.isRequest r (.bothOfTwo cbIndex cb2Index) = some (dv', φ')) :
    GoesOn dv r (.bothOfTwo cbIndex cb2Index) dv' φ' := by
  cases cbIndex with
  | none =>
      simp only [Device.isRequest, Option.some.injEq, Prod.mk.injEq] at h
      obtain ⟨rfl, rfl⟩ := h
      refine look hfits ?_
      intro _ p chunk hp _ _ hacc
      cases page_of_request hlen hp with
      | inl hfirst => cases hacc.1 hfirst.1
      | inr hsecond => exact ⟨hsecond.1, hacc.2 hsecond.1⟩
  | some cbIndex =>
      simp only [Device.isRequest] at h
      split at h
      case isTrue =>
        simp only [Option.map_eq_some_iff, Prod.mk.injEq] at h
        obtain ⟨l, hl, rfl, rfl⟩ := h
        have hloop := groupClear_of_route hl
        refine look hfits ?_
        intro _ p chunk hp hroute _ hacc
        refine ⟨?_, hacc.2⟩
        intro hg
        have hpage := (page_of_request hlen hp).resolve_right fun hsecond =>
          hfits (hg.symm.trans hsecond.1)
        rw [hg] at hroute
        rw [hloop.1, hloop.2.1]
        exact ⟨hloop.2.2 chunk hroute (Option.some.inj (hacc.1 hg)), hpage.2⟩
      case isFalse hdata =>
        simp only [Option.some.injEq, Prod.mk.injEq] at h
        obtain ⟨rfl, rfl⟩ := h
        exact look hfits fun hwrite => absurd (Option.isSome_iff_ne_none.mpr hwrite) hdata

theorem second {cb2Index : Option Nat} (hfits : gbIndex r ≠ endIndex r) (hlen : r.len ≤ maxSglLen)
    (h : dv.isRequest r (.second cb2Index) = some (dv', φ')) :
    GoesOn dv r (.second cb2Index) dv' φ' := by
  cases cb2Index with
  | none =>
      simp only [Device.isRequest, Option.some.injEq, Prod.mk.injEq] at h
      obtain ⟨rfl, rfl⟩ := h
      refine look trivial ?_
      intro _ p chunk _ _ _ hacc
      cases hacc.2
  | some cb2Index =>
      simp only [Device.isRequest] at h
      split at h
      case isTrue =>
        simp only [Option.map_eq_some_iff, Prod.mk.injEq] at h
        obtain ⟨l, hl, rfl, rfl⟩ := h
        have hloop := groupClear_of_route hl
        refine look hfits ?_
        intro _ p chunk hp hroute _ hacc
        have hpage := (page_of_request hlen hp).resolve_left fun hfirst =>
          hfits (hfirst.1.symm.trans hacc.1)
        rw [hacc.1] at hroute
        refine ⟨hacc.1, hloop.2.2 chunk hroute (Option.some.inj hacc.2), ?_⟩
        rw [hloop.1, hloop.2.1]
        exact ⟨Nat.zero_le _, hpage.2⟩
      case isFalse hdata =>
        simp only [Option.some.injEq, Prod.mk.injEq] at h
        obtain ⟨rfl, rfl⟩ := h
        exact look trivial fun hwrite => absurd (Option.isSome_iff_ne_none.mpr hwrite) hdata

theorem clearFirst {l : GroupLoop} {cb2Index : Option Nat} (hfits : gbIndex r ≠ endIndex r)
    (hlen : r.len ≤ maxSglLen) (hl : dv.unraced l)
    (h : dv.isRequest r (.clearFirst l cb2Index) = some (dv', φ')) :
    GoesOn dv r (.clearFirst l cb2Index) dv' φ' := by
  simp only [Device.isRequest] at h
  split at h
  case isTrue hleft =>
    simp only [Option.some.injEq, Prod.mk.injEq] at h
    obtain ⟨rfl, rfl⟩ := h
    refine look hfits ?_
    intro _ p chunk hp _ _ hacc
    cases page_of_request hlen hp with
    | inl hfirst =>
        have hrange := hacc.1 hfirst.1
        omega
    | inr hsecond => exact ⟨hsecond.1, hacc.2 hsecond.1⟩
  case isFalse =>
    simp only [Option.some.injEq, Prod.mk.injEq] at h
    obtain ⟨rfl, rfl⟩ := h
    refine ⟨dv.groupStep_eq wordClear l, fun _ _ => Device.bitmapTest_of_clear hl, hfits, ?_⟩
    intro _ p chunk _ _ hbit hacc
    refine ⟨?_, hacc.2⟩
    intro hg
    obtain ⟨harray, hle, hlt⟩ := hacc.1 hg
    rw [Device.groupStep_array]
    exact ⟨harray, Device.ahead_of_clear hl hbit harray hle hlt⟩

theorem clearSecond {l : GroupLoop} (hfits : gbIndex r ≠ endIndex r) (hl : dv.unraced l)
    (h : dv.isRequest r (.clearSecond l) = some (dv', φ')) :
    GoesOn dv r (.clearSecond l) dv' φ' := by
  simp only [Device.isRequest] at h
  split at h
  case isTrue hleft =>
    simp only [Option.some.injEq, Prod.mk.injEq] at h
    obtain ⟨rfl, rfl⟩ := h
    refine look trivial ?_
    intro _ p chunk _ _ _ hacc
    have hrange := hacc.2.2
    omega
  case isFalse =>
    simp only [Option.some.injEq, Prod.mk.injEq] at h
    obtain ⟨rfl, rfl⟩ := h
    refine ⟨dv.groupStep_eq wordClear l, fun _ _ => Device.bitmapTest_of_clear hl, hfits, ?_⟩
    intro _ p chunk _ _ hbit hacc
    obtain ⟨hg, harray, hle, hlt⟩ := hacc
    refine ⟨hg, ?_⟩
    rw [Device.groupStep_array]
    exact ⟨harray, Device.ahead_of_clear hl hbit harray hle hlt⟩

theorem of_isRequest {φ : Progress} (hfits : φ.Fits r) (hlen : r.len ≤ maxSglLen)
    (hok : dv.mayProceed r φ) (h : dv.isRequest r φ = some (dv', φ')) : GoesOn dv r φ dv' φ' := by
  cases φ with
  | start => exact start h
  | server cbIndex => exact server hfits h
  | chunk c => exact chunk hfits hok h
  | test c => exact test hfits h
  | transfer c => cases h
  | disk => cases h
  | firstOfTwo cbIndex => exact firstOfTwo hfits h
  | bothOfTwo cbIndex cb2Index => exact bothOfTwo hfits hlen h
  | clearFirst l cb2Index => exact clearFirst hfits hlen hok h
  | second cb2Index => exact second hfits hlen h
  | clearSecond l => exact clearSecond hfits hok h

end GoesOn

/-! ## Requests -/

namespace Flight

theorem pending_of_ends {io : Traffic D} (h : Flight all io)
    (hn : n ∈ io.bios.filterMap Bio.ends?) : ∃ r, io.store.pending n = some r := by
  obtain ⟨b, hb, hends⟩ := List.mem_filterMap.mp hn
  cases b with
  | backup c range => cases hends
  | page n' p write last =>
      obtain ⟨r, hr, -⟩ := (h.pages n' p write last hb).2
      cases last with
      | false => cases hends
      | true =>
          have heq : n' = n := Option.some.inj hends
          exact ⟨r, heq ▸ hr⟩

end Flight

namespace DeviceInv

theorem request (h : DeviceInv all dv tr) (hsub : dv.submits r = true) :
    DeviceInv all (dv.request r) tr := by
  simp only [Device.submits, Bool.and_eq_true, Bool.or_eq_true, decide_eq_true_eq,
    beq_iff_eq] at hsub
  obtain ⟨⟨hadmits, hlen⟩, hread⟩ := hsub
  have hnext := h.current.next_none
  have hkeep : ∀ {n' r'}, dv.io.store.pending n' = some r' →
      (dv.io.store.accept r).pending n' = some r' := fun hr' => h.current.pending_of_accept hr'
  have hback : ∀ {n' r'}, (dv.io.store.accept r).pending n' = some r' →
      (∃ r'', dv.io.store.pending n' = some r'') → dv.io.store.pending n' = some r' := by
    intro n' r' hr' hold
    obtain ⟨r'', hr''⟩ := hold
    have heq := (hkeep hr'').symm.trans hr'
    exact Option.some.inj heq ▸ hr''
  have hheld : ∀ {o}, o ∈ dv.io.ops → ∃ r', dv.io.store.pending o.serial = some r' := by
    intro o ho
    obtain ⟨r', hr', -⟩ := h.flight.held o ho
    exact ⟨r', hr'⟩
  have hbacking : (dv.request r).backing = dv.backing := by
    refine Device.backing_congr rfl rfl ?_
    intro b hb
    refine h.flight.written_congr ?_ ?_ hb
    · intro _ _
      rfl
    · intro n' hn'
      obtain ⟨r', hr'⟩ := h.flight.pending_of_ends hn'
      exact (hkeep hr').trans hr'.symm
  have hnone : ∀ {n'}, Function.update dv.io.progress dv.io.store.next (some .start) n' = none →
      n' ≠ dv.io.store.next ∧ dv.io.progress n' = none := by
    intro n' hn'
    by_cases heq : n' = dv.io.store.next
    · rw [heq, Function.update_self] at hn'
      cases hn'
    · rw [Function.update_of_ne heq] at hn'
      exact ⟨heq, hn'⟩
  refine ⟨?_, ?_, h.routing, ?_, ?_⟩
  · rw [hbacking]
    exact h.current.accept hadmits
  · refine h.flight.accept h.current.below hlen ?_
    intro hnone
    exact hread.resolve_left (by simp [hnone])
  · refine h.slots.sub (fun _ ho => ho) (fun e he => ⟨e, he, rfl, rfl⟩) ?_
      fun _ _ _ _ _ _ _ _ ho _ => ho
    intro o ho r' hr'
    exact hback hr' (hheld ho)
  · constructor
    case remote =>
      rw [hbacking]
      intro p chunk hroute hbit hp
      exact h.copies.remote p chunk hroute hbit fun hw => hp (h.current.writing_of_accept hw)
    case accounted =>
      intro n' r' p chunk hr' hdata hp hroute hbit
      cases IoStore.accept_cases hr' with
      | inl hnew =>
          refine .inl ⟨.start, ?_, trivial⟩
          rw [hnew.1]
          exact Function.update_self ..
      | inr hold =>
          exact (h.copies.accounted n' r' p chunk hold.2 hdata hp hroute hbit).stays
            (Function.update_of_ne hold.1 ..) (fun _ ho _ => ho) fun e he _ => ⟨e, he, rfl, rfl⟩
    case handed =>
      rw [hbacking]
      intro n' r' f p hr' hdata hn' hmarking hp
      have hold := hnone hn'
      have hcases := (IoStore.accept_cases hr').resolve_left fun hnew => hold.1 hnew.1
      exact h.copies.handed n' r' f p hcases.2 hdata hold.2 hmarking hp
    case landed =>
      intro e he r' f hr'
      exact h.copies.landed e he r' f (hback hr' (hheld (Traffic.mem_ops_of_completing he)))
    case reading =>
      rw [hbacking]
      intro o ho hkind r' hr'
      exact h.copies.reading o ho hkind r' (hback hr' (hheld (Traffic.mem_ops_of_busy ho)))

theorem proceed (h : DeviceInv all dv tr) (hok : dv.careful (.proceed n))
    (hs : dv.proceed n = some dv') : DeviceInv all dv' tr := by
  unfold Device.proceed at hs
  split at hs
  case h_1 r hr hφ =>
    simp only [Option.some.injEq] at hs
    subst hs
    have hr' : (dv.setProgress n none).io.store.pending n = some r := hr
    rw [Traffic.stackbd_eq hr']
    exact h.toDisk hφ hr
  case h_2 r φ hdisk hr hφ =>
    simp only [Option.map_eq_some_iff, Prod.exists] at hs
    obtain ⟨dv₁, φ', hreq, rfl⟩ := hs
    have hfits : φ.Fits r := by
      obtain ⟨-, r', hr', hfits⟩ := h.flight.submitting n φ hφ
      rw [request_unique hr hr'] at hfits
      exact hfits
    have hgo := GoesOn.of_isRequest hfits (h.flight.sizes n r hr).1 (hok r hr φ hφ) hreq
    obtain ⟨words, rfl⟩ : ∃ words, dv₁ = { dv with words := words } := ⟨_, hgo.words⟩
    exact h.goOn hφ hr hgo.fits hgo.bits hgo.accounts
  case h_3 => cases hs

end DeviceInv

end Memtrade.Infiniswap

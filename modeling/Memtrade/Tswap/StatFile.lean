import Memtrade.Lib.Conversion
import Memtrade.Lib.InputStream
import Memtrade.Tswap.State

/-!
# The file `tswap_stat` and the programs that read it

The module prints a table of its counters; the control programs read it with
`while (in >> key >> value)` and add up the pages that are in memory.
-/

namespace Memtrade.Tswap

open Memtrade.CText

/-! ## The module -/

/-- The labels of the table, as the format has them. -/
def statLabels : List String :=
  ["nr_zombie_page:                 ",
   "nr_in_memory_page:              ",
   "nr_in_memory_zombie_page:       ",
   "nr_in_flight_page:              ",
   "len_quarantine_list:            ",
   "nr_async_io:                    ",
   "nr_async_end_io:                ",
   "nr_async_io_fail:               ",
   "nr_async_end_io_fail:           ",
   "nr_thp:                         ",
   "nr_malloc_fail:                 ",
   "nr_kmap_fail:                   ",
   "nr_radix_tree_insert_fail:      ",
   "nr_radix_tree_delete_fail:      ",
   "nr_store:                       ",
   "nr_load:                        ",
   "nr_invalid_load:                ",
   "nr_overwrite_store:             ",
   "nr_invalidate_page:             ",
   "nr_invalid_invalidate_page:     ",
   "nr_invalidate_area:             ",
   "nr_init:                        ",
   "nr_quarantine_delete_stale:     ",
   "nr_quarantine_skip_mem_zombie:  "]

/-- The counters in the order in which they are printed. -/
def Stat.printed (st : Stat) : List Int :=
  [st.nrZombiePage, st.nrInMemoryPage, st.nrInMemoryZombiePage, st.nrInFlightPage,
   st.lenQuarantineList, st.nrAsyncIo, st.nrAsyncEndIo, st.nrAsyncIoFail, st.nrAsyncEndIoFail,
   st.nrThp, st.nrMallocFail, st.nrKmapFail, st.nrRadixTreeInsertFail, st.nrRadixTreeDeleteFail,
   st.nrStore, st.nrLoad, st.nrInvalidLoad, st.nrOverwriteStore, st.nrInvalidatePage,
   st.nrInvalidInvalidatePage, st.nrInvalidateArea, st.nrInit, st.nrQuarantineDeleteStale,
   st.nrQuarantineSkipMemZombie]

def statTable (st : Stat) : List (Text × Int) := (statLabels.map String.toList).zip st.printed

def tswapStatShow (st : Stat) : Text := (statTable st).flatMap tableLine

/-! ## The readers -/

def pageShift : Nat := 12

def isOneOf (names : List String) (key : Text) : Bool := names.any fun name => key == name.toList

/-- The body of the loop. -/
def addMemoryPages (names : List String) (nrMemoryPage : Int) (key : Text) (value : Int) : Int :=
  if isOneOf names key then wrapLong (nrMemoryPage + value) else nrMemoryPage

/-- The common shape of the readers; without the file they exit. -/
def statMemorySize (names : List String) (file : Option Text) : Option Int :=
  match file with
  | none => none
  | some t => some (wrapLong ((readWhile (addMemoryPages names) 0 t).1 * 2 ^ pageShift))

end Memtrade.Tswap

namespace Memtrade

open Memtrade.CText Memtrade.Tswap

/-- `get_tswap_memory_size` of cmanager. -/
def Cmanager.getTswapMemorySize (file : Option Text) : Option Int :=
  statMemorySize ["nr_zombie_page:", "nr_in_memory_page:", "nr_in_memory_zombie_page:",
    "nr_in_flight_page:"] file

/-- `get_tswap_memory_size` of rcmanager. -/
def Rcmanager.getTswapMemorySize (file : Option Text) : Option Int :=
  statMemorySize ["nr_zombie_page:", "nr_in_memory_page:", "nr_in_memory_zombie_page:",
    "nr_in_flight_page:"] file

/-- `get_tswap_memory_size` of balloon. -/
def Balloon.getTswapMemorySize (file : Option Text) : Option Int :=
  statMemorySize ["nr_zombie_page:", "nr_in_memory_page:", "nr_in_memory_zombie_page:",
    "nr_in_flight_page:"] file

/-- `get_silo_memory_size` of control_loop, which looks for one more name. -/
def ControlLoop.getSiloMemorySize (file : Option Text) : Option Int :=
  statMemorySize ["nr_zombie_page:", "nr_in_memory_page:", "nr_in_memory_zombie_page:",
    "nr_in_flight_page:", "nr_prefetched_page:"] file

end Memtrade

namespace Memtrade.Tswap

open Memtrade.CText

/-- The pages that the readers are after. -/
def Stat.memoryPages (st : Stat) : Int :=
  st.nrZombiePage + st.nrInMemoryPage + st.nrInMemoryZombiePage + st.nrInFlightPage

/-- Every counter is a `long`. -/
def Stat.InLong (st : Stat) : Prop := ∀ v ∈ st.printed, CText.InLong v

/-! ## Reading the table -/

theorem isLabel_of_mem : ∀ label ∈ statLabels, IsLabel label.toList := by
  simp only [statLabels, List.forall_mem_cons]
  repeat rw [String.toList_ofList]
  decide +kernel

theorem readWhile_tswapStatShow {σ : Type} (body : σ → Text → Int → σ) (init : σ) {st : Stat}
    (hst : st.InLong) :
    readWhile body init (tswapStatShow st) =
      ((statTable st).foldl (fun s l => body s (labelKey l.1) l.2) init, []) := by
  have htable : ∀ l ∈ statTable st, IsLabel l.1 ∧ CText.InLong l.2 := by
    intro l hl
    have hmem := List.of_mem_zip hl
    obtain ⟨label, hlabel, heq⟩ := List.mem_map.mp hmem.1
    rw [← heq]
    exact ⟨isLabel_of_mem label hlabel, hst l.2 hmem.2⟩
  have hread := readWhile_table body (statTable st) htable init (List.forall_mem_nil _)
  rw [List.nil_append] at hread
  exact hread

/-- The first four lines are the ones that count. -/
def memoryLines : List Bool := List.replicate 4 true ++ List.replicate 20 false

/-- The readers pick these lines. -/
def Picks (names : List String) : Prop :=
  statLabels.map (fun label => isOneOf names (labelKey label.toList)) = memoryLines

theorem foldl_addMemoryPages {names : List String} (hnames : Picks names) (st : Stat) :
    (statTable st).foldl (fun s l => addMemoryPages names s (labelKey l.1) l.2) 0 =
      (memoryLines.zip st.printed).foldl (fun s l => if l.1 then wrapLong (s + l.2) else s) 0 := by
  rw [← hnames]
  unfold statTable
  rw [List.zip_map_left, List.foldl_map, List.zip_map_left, List.foldl_map]
  rfl

theorem wrapLong_of_inLong {v : Int} (hv : CText.InLong v) : wrapLong v = v := by
  unfold wrapLong
  apply Int.bmod_eq_of_le
  · exact hv.1
  · exact hv.2

theorem foldl_memoryLines (st : Stat) :
    (memoryLines.zip st.printed).foldl (fun s l => if l.1 then wrapLong (s + l.2) else s) 0 =
      wrapLong st.memoryPages := by
  simp only [memoryLines, Stat.printed, List.replicate, List.cons_append, List.nil_append,
    List.zip_cons_cons, List.foldl_cons, List.zip_nil_left, List.foldl_nil, if_true,
    Bool.false_eq_true, if_false]
  simp only [wrapLong, Int.bmod_add_bmod, zero_add, Stat.memoryPages]

theorem statMemorySize_tswapStatShow {names : List String} (hnames : Picks names) {st : Stat}
    (hst : st.InLong) (hsize : CText.InLong (4096 * st.memoryPages)) :
    statMemorySize names (some (tswapStatShow st)) = some (4096 * st.memoryPages) := by
  have hshift : wrapLong (wrapLong st.memoryPages * 2 ^ pageShift) = 4096 * st.memoryPages := by
    have hwrap : wrapLong (wrapLong st.memoryPages * 2 ^ pageShift) =
        wrapLong (st.memoryPages * 2 ^ pageShift) := Int.bmod_mul_bmod
    have hmul : st.memoryPages * 2 ^ pageShift = 4096 * st.memoryPages := mul_comm ..
    rw [hwrap, hmul, wrapLong_of_inLong hsize]
  unfold statMemorySize
  simp only [readWhile_tswapStatShow _ _ hst, foldl_addMemoryPages hnames, foldl_memoryLines, hshift]

theorem picks_four : Picks ["nr_zombie_page:", "nr_in_memory_page:", "nr_in_memory_zombie_page:",
    "nr_in_flight_page:"] := by
  simp only [Picks, statLabels, isOneOf, List.map_cons, List.map_nil, List.any_cons, List.any_nil]
  repeat rw [String.toList_ofList]
  decide +kernel

theorem picks_five : Picks ["nr_zombie_page:", "nr_in_memory_page:", "nr_in_memory_zombie_page:",
    "nr_in_flight_page:", "nr_prefetched_page:"] := by
  simp only [Picks, statLabels, isOneOf, List.map_cons, List.map_nil, List.any_cons, List.any_nil]
  repeat rw [String.toList_ofList]
  decide +kernel

/-- The module and its readers agree: the loop reads every line of the table to the end,
and each program gets the size in bytes of the pages in memory. -/
theorem readers_agree {st : Stat} (hst : st.InLong)
    (hsize : CText.InLong (4096 * st.memoryPages)) :
    (∀ (σ : Type) (body : σ → Text → Int → σ) (init : σ),
      readWhile body init (tswapStatShow st) =
        ((statTable st).foldl (fun s l => body s (labelKey l.1) l.2) init, [])) ∧
      Cmanager.getTswapMemorySize (some (tswapStatShow st)) = some (4096 * st.memoryPages) ∧
      Rcmanager.getTswapMemorySize (some (tswapStatShow st)) = some (4096 * st.memoryPages) ∧
      Balloon.getTswapMemorySize (some (tswapStatShow st)) = some (4096 * st.memoryPages) ∧
      ControlLoop.getSiloMemorySize (some (tswapStatShow st)) = some (4096 * st.memoryPages) := by
  have hfour := statMemorySize_tswapStatShow picks_four hst hsize
  have hfive := statMemorySize_tswapStatShow picks_five hst hsize
  exact ⟨fun σ body init => readWhile_tswapStatShow body init hst, hfour, hfour, hfour, hfive⟩

/-- Counters of both signs. -/
def sampleStat : Stat :=
  { initStat with nrZombiePage := -3, nrInMemoryPage := 100, nrInFlightPage := 5, nrStore := -1 }

theorem readers_agree_sample :
    Cmanager.getTswapMemorySize (some (tswapStatShow sampleStat)) = some 417792 ∧
      ControlLoop.getSiloMemorySize (some (tswapStatShow sampleStat)) = some 417792 := by
  have hst : sampleStat.InLong := by
    unfold Stat.InLong
    decide
  have hagree := readers_agree hst (by decide)
  exact ⟨hagree.2.1, hagree.2.2.2.2⟩

end Memtrade.Tswap

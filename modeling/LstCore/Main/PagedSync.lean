import LstCore.Proof.Compounding
import LstCore.Proof.Posts

/-!
# A sweep in pages and a refresh in one pass

Syncs from the start of the set, whatever their limits, read the validators in order, each of
them once, and come to the end after no more of them than there are validators. What they leave is
what one refresh at the time of the last of them does. A Sync fails where the refresh would, or
where what its page leaves of the set does not add up in 128 bits, the rest being as it is cached;
it leaves everything as it was, and the next one starts from the same edge.

* `pagedSync`: the calls, up to the one that answers that it is done.
* `AtEdge`: the storage between two pages.
* `pagedSync_atEdge`: what a sweep has done, by induction over its calls.
* `pagedSync_arrives`: which sweeps get to the end.
-/

namespace LstCore

open Lib

variable {deps : Deps} {env : Env} {contract : ContractInfo} {st st' st₀ : Storage} {resp : Response}
  {limit : Option ℕ} {edge : ℕ}

/-! ## The calls -/

/-- A call of Sync: when, by whom and with which limit. -/
structure SyncCall where
  time : ℕ
  info : MessageInfo
  limit : Option ℕ

/-- The end of the page that starts at an edge. -/
def nextEdge (set : List ValidatorEntry) (edge : ℕ) (limit : Option ℕ) : ℕ :=
  min (edge + max (limit.getD defaultSyncLimit) 1) set.length

/-- The validators whose delegations a Sync reads. -/
def syncPage (limit : Option ℕ) (st : Storage) : List String :=
  addresses (pageOf st.syncCursor (nextEdge st.validators st.syncCursor limit) st.validators)

/-- What a sweep comes to: the storage it leaves, what each of its Syncs has read, and how many
have been sent, with those that have failed. -/
structure PagedSweep where
  store : Storage
  pages : List (List String)
  sent : ℕ

/-- Sync after Sync, up to the one that answers that it is done; none where none of them does. One
that fails reverts, and the next one is sent all the same. -/
def pagedSync (deps : Deps) (contract : ContractInfo) : List SyncCall → Storage → Option PagedSweep
  | [], _ => none
  | call :: calls, st =>
    match execute deps ⟨call.time, contract⟩ call.info (.sync call.limit) st with
    | .error _ => (pagedSync deps contract calls st).map fun sweep =>
        { sweep with sent := sweep.sent + 1 }
    | .ok (next, ⟨_, some (.sync _ _ true)⟩) => some ⟨next, [syncPage call.limit st], 1⟩
    | .ok (next, _) => (pagedSync deps contract calls next).map fun sweep =>
        ⟨sweep.store, syncPage call.limit st :: sweep.pages, sweep.sent + 1⟩

/-! ## The set between two pages -/

/-- The set with the entries in front of an edge re-read. -/
def readUpTo (deps : Deps) (contract : ContractInfo) (st : Storage) (edge : ℕ) :
    List ValidatorEntry :=
  (st.validators.take edge).map (readEntry deps contract.address st.config.bondedDenom) ++
    st.validators.drop edge

theorem readUpTo_zero : readUpTo deps contract st 0 = st.validators := by
  rw [readUpTo, List.take_zero, List.map_nil, List.nil_append, List.drop_zero]

theorem readUpTo_length : readUpTo deps contract st st.validators.length =
    st.validators.map (readEntry deps contract.address st.config.bondedDenom) := by
  rw [readUpTo, List.take_length, List.drop_length, List.append_nil]

theorem length_readUpTo : (readUpTo deps contract st edge).length = st.validators.length := by
  rw [readUpTo, List.length_append, List.length_map, ← List.length_append, List.take_append_drop]

/-- A page starts at the edge that the ones before it have come to. -/
theorem pageOf_readUpTo {stop : ℕ} (hle : edge ≤ stop) (hn : stop ≤ st.validators.length) :
    pageOf edge stop (readUpTo deps contract st edge) = pageOf edge stop st.validators := by
  have hlen : ((st.validators.take edge).map
      (readEntry deps contract.address st.config.bondedDenom)).length = edge := by
    rw [List.length_map, List.length_take, Nat.min_eq_left (hle.trans hn)]
  rw [pageOf, pageOf, List.drop_take, List.drop_take, readUpTo, List.drop_left' hlen]

/-- **A page read** takes the edge to its end. -/
theorem withPage_readUpTo {stop : ℕ} (hle : edge ≤ stop) (hn : stop ≤ st.validators.length) :
    withPage edge stop (readUpTo deps contract st edge)
        ((pageOf edge stop st.validators).map
          (readEntry deps contract.address st.config.bondedDenom)) =
      readUpTo deps contract st stop := by
  have hlen : ((st.validators.take edge).map
      (readEntry deps contract.address st.config.bondedDenom)).length = edge := by
    rw [List.length_map, List.length_take, Nat.min_eq_left (hle.trans hn)]
  have hsplit : st.validators.take stop = st.validators.take edge ++ pageOf edge stop st.validators := by
    conv_lhs => rw [← List.take_append_drop edge (st.validators.take stop)]
    rw [List.take_take, Nat.min_eq_left hle, pageOf]
  have hrest : (readUpTo deps contract st edge).drop stop = st.validators.drop stop := by
    rw [readUpTo, List.drop_append, List.drop_of_length_le (hlen.trans_le hle), List.nil_append,
      hlen, List.drop_drop, Nat.add_sub_cancel' hle]
  rw [withPage, if_pos hle, hrest, readUpTo, readUpTo, List.take_left' hlen, hsplit, List.map_append]

/-! ## One page -/

/-- The storage of a sweep between two pages, where everything but the set, the cursor and what
they add up to is as at its start. -/
def AtEdge (deps : Deps) (contract : ContractInfo) (st₀ : Storage) (edge : ℕ) (st : Storage) : Prop :=
  ∃ bonded pending, st = { st₀ with
    validators := readUpTo deps contract st₀ edge
    syncCursor := edge
    totals := { st₀.totals with totalBonded := bonded, pendingRewards := pending } }

/-- The set up to an edge adds up within 128 bits. -/
def SumsFit (deps : Deps) (contract : ContractInfo) (st : Storage) (edge : ℕ) : Prop :=
  total (·.bonded) (readUpTo deps contract st edge) < 2 ^ 128 ∧
    total (·.pendingRewards) (readUpTo deps contract st edge) < 2 ^ 128

/-- What each page from an edge on leaves of the set adds up. -/
def PagesFit (deps : Deps) (contract : ContractInfo) (st : Storage) : ℕ → List SyncCall → Prop
  | _, [] => True
  | edge, call :: calls =>
    let stop := nextEdge st.validators edge call.limit
    SumsFit deps contract st stop ∧
      (stop < st.validators.length → PagesFit deps contract st stop calls)

/-- The pages from an edge on get to the end of the set: one that adds up takes the edge to its end,
and one that does not leaves the edge where it is. -/
def PagesArrive (deps : Deps) (contract : ContractInfo) (st : Storage) : ℕ → List SyncCall → Prop
  | _, [] => False
  | edge, call :: calls =>
    let stop := nextEdge st.validators edge call.limit
    (SumsFit deps contract st stop ∧
        (stop < st.validators.length → PagesArrive deps contract st stop calls)) ∨
      (¬SumsFit deps contract st stop ∧ PagesArrive deps contract st edge calls)

theorem nextEdge_le : nextEdge st.validators edge limit ≤ st.validators.length := min_le_right _ _

theorem lt_nextEdge (h : edge < st.validators.length) : edge < nextEdge st.validators edge limit := by
  unfold nextEdge
  omega

theorem pageEnd_eq_ok {cursor lim stop : ℕ} {set : List ValidatorEntry} :
    pageEnd cursor lim set = .ok stop ↔
      cursor + max lim 1 ≤ u32Max ∧ stop = min (cursor + max lim 1) set.length := by
  unfold pageEnd addUsize
  split <;> rename_i h <;> simp [h, eq_comm]

/-- **A page of the sweep**, from an edge to the next one, or to the end of the set, where the
supply is mirrored and the cache is stamped. -/
theorem sync_atEdge {time : ℕ} {info : MessageInfo} (hst : AtEdge deps contract st₀ edge st)
    (hlt : edge < st₀.validators.length) {stop : ℕ} (hstop : nextEdge st₀.validators edge limit = stop) :
    execute deps ⟨time, contract⟩ info (.sync limit) st = .ok (st', resp) ↔
      edge + max (limit.getD defaultSyncLimit) 1 ≤ u32Max ∧
      Readable deps contract.address (pageOf edge stop st₀.validators) ∧ ∃ tb pr : Uint128,
        tb.val = total (·.bonded) (readUpTo deps contract st₀ stop) ∧
        pr.val = total (·.pendingRewards) (readUpTo deps contract st₀ stop) ∧
        ((stop < st₀.validators.length ∧ st' = { st₀ with
            validators := readUpTo deps contract st₀ stop
            syncCursor := stop
            totals := { st₀.totals with totalBonded := tb, pendingRewards := pr } } ∧
          resp = ⟨[], some (.sync tb (stop - edge) false)⟩) ∨
        (stop = st₀.validators.length ∧ ∃ ts, mirrorSupply deps st₀ = .ok ts ∧ st' = { st₀ with
            validators := readUpTo deps contract st₀ stop
            syncCursor := 0
            totals := { st₀.totals with
              totalBonded := tb, pendingRewards := pr, totalSupply := ts, lastSyncTime := time } } ∧
          resp = ⟨[], some (.sync tb (stop - edge) true)⟩)) := by
  obtain ⟨bonded, pending, rfl⟩ := hst
  have hle : stop ≤ st₀.validators.length := hstop ▸ nextEdge_le
  have hedge : edge ≤ stop := (hstop ▸ lt_nextEdge hlt : edge < stop).le
  have hne : readUpTo deps contract st₀ edge ≠ [] :=
    List.ne_nil_of_length_pos (length_readUpTo ▸ Nat.zero_lt_of_lt hlt)
  have hmin : min (edge + max (limit.getD defaultSyncLimit) 1) st₀.validators.length = stop := hstop
  change executeSync deps ⟨time, contract⟩ limit _ = .ok (st', resp) ↔ _
  unfold executeSync
  rw [guard_eq_ok]
  simp only [bind_eq_ok, pageEnd_eq_ok, length_readUpTo, hmin, mapM_read_eq_ok, subUsize_eq_ok,
    totalBonded_eq_ok, sumOf_eq_ok]
  constructor
  · rintro ⟨-, _, ⟨hfit, rfl⟩, _, ⟨hread, rfl⟩, _, ⟨-, rfl⟩, tb, htb, pr, hpr, h⟩
    rw [pageOf_readUpTo hedge hle] at hread htb hpr h
    rw [withPage_readUpTo hedge hle] at htb hpr h
    refine ⟨hfit, hread, tb, pr, htb, hpr, ?_⟩
    rw [length_readUpTo] at h
    rcases hle.lt_or_eq with hmore | hlast
    · rw [decide_eq_false hmore.not_ge] at h
      simp only [Bool.false_eq_true, if_false, bind_eq_ok, pure_eq_ok, Prod.mk.injEq] at h
      obtain ⟨_, rfl, rfl, rfl⟩ := h
      exact .inl ⟨hmore, rfl, rfl⟩
    · rw [decide_eq_true hlast.ge] at h
      simp only [if_true, bind_eq_ok, pure_eq_ok, Prod.mk.injEq] at h
      obtain ⟨ts, hts, _, rfl, rfl, rfl⟩ := h
      exact .inr ⟨hlast, ts, hts, rfl, rfl⟩
  · rintro ⟨hfit, hread, tb, pr, htb, hpr, h⟩
    refine ⟨hne, _, ⟨hfit, rfl⟩, _, ⟨(pageOf_readUpTo hedge hle).symm ▸ hread, rfl⟩, _,
      ⟨hedge, rfl⟩, tb, ?_, pr, ?_, ?_⟩
    all_goals rw [pageOf_readUpTo hedge hle, withPage_readUpTo hedge hle]
    · exact htb
    · exact hpr
    · rw [length_readUpTo]
      rcases h with ⟨hmore, rfl, rfl⟩ | ⟨hlast, ts, hts, rfl, rfl⟩
      · rw [decide_eq_false hmore.not_ge]
        rfl
      · rw [decide_eq_true hlast.ge, if_pos rfl, bind_eq_ok]
        exact ⟨ts, hts, rfl⟩

/-! ## All pages -/

/-- What a sweep from an edge has read and left. -/
structure SweptFrom (deps : Deps) (contract : ContractInfo) (st₀ : Storage) (edge : ℕ)
    (calls : List SyncCall) (sweep : PagedSweep) : Prop where
  read : sweep.pages.flatten = addresses (st₀.validators.drop edge)
  pos : 0 < sweep.sent
  sent : sweep.pages.length ≤ sweep.sent
  le : sweep.pages.length ≤ st₀.validators.length - edge
  readable : Readable deps contract.address (st₀.validators.drop edge)
  left : ∃ call tb pr ts, calls[sweep.sent - 1]? = some call ∧
    tb.val = total (·.bonded) (readUpTo deps contract st₀ st₀.validators.length) ∧
    pr.val = total (·.pendingRewards) (readUpTo deps contract st₀ st₀.validators.length) ∧
    mirrorSupply deps st₀ = .ok ts ∧ sweep.store = { st₀ with
      validators := readUpTo deps contract st₀ st₀.validators.length
      syncCursor := 0
      totals := { st₀.totals with
        totalBonded := tb, pendingRewards := pr, totalSupply := ts, lastSyncTime := call.time } }

/-- The rest of the set, page by page. -/
theorem drop_eq_page {stop : ℕ} {set : List ValidatorEntry} (hle : edge ≤ stop) :
    set.drop edge = pageOf edge stop set ++ set.drop stop := by
  conv_lhs => rw [← List.take_append_drop (stop - edge) (set.drop edge), List.drop_drop,
    Nat.add_sub_cancel' hle]
  rw [pageOf, List.drop_take]

theorem addresses_append (l l' : List ValidatorEntry) :
    addresses (l ++ l') = addresses l ++ addresses l' := by
  simp only [addresses_eq, List.map_append]

section

variable {call : SyncCall} {calls : List SyncCall} {sweep : PagedSweep}

/-- **A call of a sweep** fails and leaves its storage to the next one, or reads a page and leaves
the next one at its end, or gets to the end of the set. -/
theorem pagedSync_cons (calls : List SyncCall) (hst : AtEdge deps contract st₀ edge st)
    (hlt : edge < st₀.validators.length) {stop : ℕ}
    (hstop : nextEdge st₀.validators edge call.limit = stop) :
    ((∃ e, execute deps ⟨call.time, contract⟩ call.info (.sync call.limit) st = .error e) ∧
      pagedSync deps contract (call :: calls) st =
        (pagedSync deps contract calls st).map fun sweep => { sweep with sent := sweep.sent + 1 }) ∨
    Readable deps contract.address (pageOf edge stop st₀.validators) ∧
      SumsFit deps contract st₀ stop ∧
      ((stop < st₀.validators.length ∧ ∃ next, AtEdge deps contract st₀ stop next ∧
        pagedSync deps contract (call :: calls) st = (pagedSync deps contract calls next).map fun sweep =>
          ⟨sweep.store, addresses (pageOf edge stop st₀.validators) :: sweep.pages, sweep.sent + 1⟩) ∨
      (stop = st₀.validators.length ∧ ∃ tb pr ts : Uint128,
        tb.val = total (·.bonded) (readUpTo deps contract st₀ stop) ∧
        pr.val = total (·.pendingRewards) (readUpTo deps contract st₀ stop) ∧
        mirrorSupply deps st₀ = .ok ts ∧
        pagedSync deps contract (call :: calls) st = some
          ⟨{ st₀ with
              validators := readUpTo deps contract st₀ stop
              syncCursor := 0
              totals := { st₀.totals with
                totalBonded := tb, pendingRewards := pr, totalSupply := ts,
                lastSyncTime := call.time } },
            [addresses (pageOf edge stop st₀.validators)], 1⟩)) := by
  have hle : stop ≤ st₀.validators.length := hstop ▸ nextEdge_le
  have hedge : edge ≤ stop := (hstop ▸ lt_nextEdge hlt : edge < stop).le
  have hpage : syncPage call.limit st = addresses (pageOf edge stop st₀.validators) := by
    obtain ⟨bonded, pending, rfl⟩ := hst
    rw [syncPage, nextEdge, length_readUpTo, ← nextEdge, hstop, addresses_eq,
      pageOf_readUpTo hedge hle, ← addresses_eq]
  cases hcall : execute deps ⟨call.time, contract⟩ call.info (.sync call.limit) st with
  | error e => exact .inl ⟨⟨e, rfl⟩, by simp only [pagedSync, hcall]⟩
  | ok out =>
    obtain ⟨-, hread, tb, pr, htb, hpr, hend⟩ := (sync_atEdge hst hlt hstop).1 hcall
    refine .inr ⟨hread, ⟨htb ▸ tb.isLt, hpr ▸ pr.isLt⟩, ?_⟩
    obtain ⟨next, resp⟩ := out
    rcases hend with ⟨hshort, rfl, rfl⟩ | ⟨hlast, ts, hts, rfl, rfl⟩
    · exact .inl ⟨hshort, _, ⟨tb, pr, rfl⟩, by simp only [pagedSync, hcall, hpage]⟩
    · exact .inr ⟨hlast, tb, pr, ts, htb, hpr, hts, by simp only [pagedSync, hcall, hpage]⟩

/-- **What a sweep has done**, by induction on its calls. -/
theorem pagedSync_atEdge (hst : AtEdge deps contract st₀ edge st) (hlt : edge < st₀.validators.length)
    (h : pagedSync deps contract calls st = some sweep) :
    SweptFrom deps contract st₀ edge calls sweep := by
  induction calls generalizing st edge sweep with
  | nil => simp [pagedSync] at h
  | cons call calls ih =>
    have hmore : edge < nextEdge st₀.validators edge call.limit := lt_nextEdge hlt
    rcases pagedSync_cons calls hst hlt rfl with ⟨-, heq⟩ | ⟨hread, -, hend⟩
    · rw [heq, Option.map_eq_some_iff] at h
      obtain ⟨rest, hrest, rfl⟩ := h
      obtain ⟨hpages, hpos, hsent, hle, hreadable, hleft⟩ := ih hst hlt hrest
      refine ⟨hpages, Nat.succ_pos _, hsent.trans (Nat.le_succ _), hle, hreadable, ?_⟩
      -- the last call is among those that follow
      rw [Nat.add_sub_cancel, ← Nat.sub_add_cancel hpos, List.getElem?_cons_succ]
      exact hleft
    rcases hend with ⟨hshort, next, hnext, heq⟩ | ⟨hlast, tb, pr, ts, htb, hpr, hts, heq⟩
    · rw [heq, Option.map_eq_some_iff] at h
      obtain ⟨rest, hrest, rfl⟩ := h
      obtain ⟨hpages, hpos, hsent, hle, hreadable, hleft⟩ := ih hnext hshort hrest
      refine ⟨?_, Nat.succ_pos _, Nat.succ_le_succ hsent, ?_, ?_, ?_⟩
      · rw [List.flatten_cons, hpages, drop_eq_page hmore.le, addresses_append]
      · rw [List.length_cons]
        omega
      · rw [drop_eq_page hmore.le]
        exact fun v hv => (List.mem_append.1 hv).elim (hread v) (hreadable v)
      · rw [Nat.add_sub_cancel, ← Nat.sub_add_cancel hpos, List.getElem?_cons_succ]
        exact hleft
    · obtain rfl := Option.some.inj (heq.symm.trans h)
      have hrest : pageOf edge st₀.validators.length st₀.validators = st₀.validators.drop edge := by
        rw [pageOf, List.take_length]
      rw [hlast] at hread htb hpr ⊢
      rw [hrest] at hread ⊢
      exact ⟨List.flatten_singleton, Nat.one_pos, le_rfl, Nat.sub_pos_of_lt hlt, hread,
        call, tb, pr, ts, rfl, htb, hpr, hts, rfl⟩

/-- The limits of the calls keep the ends of their pages within 32 bits. -/
def EndsFit (n : ℕ) (calls : List SyncCall) : Prop :=
  ∀ call ∈ calls, n + max (call.limit.getD defaultSyncLimit) 1 ≤ u32Max

instance {n : ℕ} : Decidable (EndsFit n calls) :=
  inferInstanceAs (Decidable (∀ call ∈ calls, _))

variable {ts : Uint128}

/-- A call fails, where the refresh does not, only if what its page leaves does not add up. -/
theorem not_sumsFit {e : Failure} (hst : AtEdge deps contract st₀ edge st)
    (hlt : edge < st₀.validators.length)
    (hend : st₀.validators.length + max (call.limit.getD defaultSyncLimit) 1 ≤ u32Max)
    (hread : Readable deps contract.address (st₀.validators.drop edge))
    (hts : mirrorSupply deps st₀ = .ok ts)
    (herr : execute deps ⟨call.time, contract⟩ call.info (.sync call.limit) st = .error e) :
    ¬SumsFit deps contract st₀ (nextEdge st₀.validators edge call.limit) := by
  intro hsums
  have hmore : edge < nextEdge st₀.validators edge call.limit := lt_nextEdge hlt
  rw [drop_eq_page hmore.le] at hread
  have hfit : edge + max (call.limit.getD defaultSyncLimit) 1 ≤ u32Max :=
    (Nat.add_le_add_right hlt.le _).trans hend
  have hpage := fun v hv => hread v (List.mem_append_left _ hv)
  have hgoes : ∃ out, execute deps ⟨call.time, contract⟩ call.info (.sync call.limit) st = .ok out := by
    rcases nextEdge_le.lt_or_eq with hshort | hlast
    · exact ⟨(_, _), (sync_atEdge hst hlt rfl).2
        ⟨hfit, hpage, ⟨_, hsums.1⟩, ⟨_, hsums.2⟩, rfl, rfl, .inl ⟨hshort, rfl, rfl⟩⟩⟩
    · exact ⟨(_, _), (sync_atEdge hst hlt rfl).2
        ⟨hfit, hpage, ⟨_, hsums.1⟩, ⟨_, hsums.2⟩, rfl, rfl, .inr ⟨hlast, ts, hts, rfl, rfl⟩⟩⟩
  obtain ⟨out, hout⟩ := hgoes
  exact nomatch hout.symm.trans herr

/-- **Which sweeps get to the end** where the refresh does not fail. -/
theorem pagedSync_arrives (hst : AtEdge deps contract st₀ edge st)
    (hlt : edge < st₀.validators.length) (hends : EndsFit st₀.validators.length calls)
    (hread : Readable deps contract.address (st₀.validators.drop edge))
    (hts : mirrorSupply deps st₀ = .ok ts) :
    (∃ sweep, pagedSync deps contract calls st = some sweep) ↔
      PagesArrive deps contract st₀ edge calls := by
  induction calls generalizing st edge with
  | nil => simp [pagedSync, PagesArrive]
  | cons call calls ih =>
    have hmore : edge < nextEdge st₀.validators edge call.limit := lt_nextEdge hlt
    have hcalls : EndsFit st₀.validators.length calls := fun c hc => hends c (List.mem_cons_of_mem _ hc)
    have hrest : Readable deps contract.address
        (st₀.validators.drop (nextEdge st₀.validators edge call.limit)) := by
      rw [drop_eq_page hmore.le] at hread
      exact fun v hv => hread v (List.mem_append_right _ hv)
    rw [PagesArrive]
    rcases pagedSync_cons calls hst hlt rfl with ⟨⟨e, herr⟩, heq⟩ | ⟨-, hsums, hend⟩
    · have hsums := not_sumsFit hst hlt (hends call List.mem_cons_self) hread hts herr
      rw [← Option.isSome_iff_exists, heq, Option.isSome_map, Option.isSome_iff_exists,
        ih hst hlt hcalls hread]
      simp only [hsums, false_and, not_false_eq_true, true_and, false_or]
    simp only [hsums, true_and, not_true, false_and, or_false]
    rcases hend with ⟨hshort, next, hnext, heq⟩ | ⟨hlast, tb, pr, _, -, -, -, heq⟩
    · rw [← Option.isSome_iff_exists, heq, Option.isSome_map, Option.isSome_iff_exists,
        imp_iff_right hshort, ih hnext hshort hcalls hrest]
    · simp only [heq, hlast, lt_irrefl, false_imp_iff, iff_true]
      exact ⟨_, rfl⟩

/-- **Which sweeps get to the end without a call that fails**, where the refresh does not. -/
theorem pagedSync_unfailing (hst : AtEdge deps contract st₀ edge st)
    (hlt : edge < st₀.validators.length) (hends : EndsFit st₀.validators.length calls)
    (hread : Readable deps contract.address (st₀.validators.drop edge))
    (hts : mirrorSupply deps st₀ = .ok ts) (hcalls : st₀.validators.length - edge ≤ calls.length) :
    (∃ sweep, pagedSync deps contract calls st = some sweep ∧ sweep.sent = sweep.pages.length) ↔
      PagesFit deps contract st₀ edge calls := by
  induction calls generalizing st edge with
  | nil => exact absurd hcalls (Nat.sub_pos_of_lt hlt).not_ge
  | cons call calls ih =>
    have hmore : edge < nextEdge st₀.validators edge call.limit := lt_nextEdge hlt
    rw [PagesFit]
    rcases pagedSync_cons calls hst hlt rfl with ⟨⟨e, herr⟩, heq⟩ | ⟨-, hsums, hend⟩
    · -- a call that fails is one more than the pages
      refine iff_of_false ?_ ?_
      · rintro ⟨sweep, h, hsent⟩
        rw [heq, Option.map_eq_some_iff] at h
        obtain ⟨rest, hrest, rfl⟩ := h
        exact absurd hsent (Nat.lt_succ_of_le (pagedSync_atEdge hst hlt hrest).sent).ne'
      · exact fun hfit =>
          not_sumsFit hst hlt (hends call List.mem_cons_self) hread hts herr hfit.1
    rcases hend with ⟨hshort, next, hnext, heq⟩ | ⟨hlast, tb, pr, _, -, -, -, heq⟩
    · rw [drop_eq_page hmore.le] at hread
      rw [List.length_cons] at hcalls
      rw [and_iff_right hsums, imp_iff_right hshort,
        ← ih hnext hshort (fun c hc => hends c (List.mem_cons_of_mem _ hc))
          (fun v hv => hread v (List.mem_append_right _ hv)) (by omega)]
      simp only [heq, Option.map_eq_some_iff]
      constructor
      · rintro ⟨_, ⟨rest, hrest, rfl⟩, hsent⟩
        exact ⟨rest, hrest, Nat.succ.inj hsent⟩
      · rintro ⟨rest, hrest, hsent⟩
        exact ⟨_, ⟨rest, hrest, rfl⟩, congrArg Nat.succ hsent⟩
    · exact iff_of_true ⟨_, heq, rfl⟩ ⟨hsums, fun hshort => absurd hlast hshort.ne⟩

/-- A page that takes in the rest of the set is one that adds up, so one of these is enough. -/
theorem pagesArrive_of_long (hsums : SumsFit deps contract st₀ st₀.validators.length)
    (h : ∃ call ∈ calls, st₀.validators.length ≤ call.limit.getD defaultSyncLimit) :
    PagesArrive deps contract st₀ edge calls := by
  induction calls generalizing edge with
  | nil => simp at h
  | cons call calls ih =>
    rw [PagesArrive]
    obtain ⟨long, hmem, hlong⟩ := h
    rcases List.mem_cons.1 hmem with rfl | hmem
    · have hstop : nextEdge st₀.validators edge long.limit = st₀.validators.length := by
        unfold nextEdge
        omega
      exact .inl ⟨hstop ▸ hsums, fun hshort => absurd hstop hshort.ne⟩
    · by_cases hfit : SumsFit deps contract st₀ (nextEdge st₀.validators edge call.limit)
      · exact .inl ⟨hfit, fun _ => ih ⟨long, hmem, hlong⟩⟩
      · exact .inr ⟨hfit, ih ⟨long, hmem, hlong⟩⟩

end

/-! ## The whole set -/

/-- **A sweep and a refresh.** From the start of the set of a reachable state, Syncs with any limits
that get to the end do so after no more of them than there are validators, have read every
validator once, and leave what a refresh does at the time of the last of them, the cursor at the
start. Where their limits stay clear of 32 bits, they get there exactly when a refresh goes through
and their pages arrive, as they do once one of them takes in the whole set; and without a call that
fails exactly when it does and what each page leaves of the set adds up. -/
theorem paged_sync_refreshes {calls : List SyncCall} (hr : Reachable st) (h0 : st.syncCursor = 0) :
    (∀ sweep, pagedSync deps contract calls st = some sweep →
      sweep.pages.length ≤ st.validators.length ∧ sweep.pages.length ≤ sweep.sent ∧
      sweep.pages.flatten = addresses st.validators ∧ sweep.pages.flatten.Nodup ∧
      sweep.store.syncCursor = 0 ∧ ∃ call, calls[sweep.sent - 1]? = some call ∧
        refreshTotals deps ⟨call.time, contract⟩ st = .ok sweep.store) ∧
    (EndsFit st.validators.length calls →
      ((∃ sweep, pagedSync deps contract calls st = some sweep) ↔
        (∃ time st', refreshTotals deps ⟨time, contract⟩ st = .ok st') ∧
          PagesArrive deps contract st 0 calls) ∧
      ((∃ call ∈ calls, st.validators.length ≤ call.limit.getD defaultSyncLimit) →
        (∃ time st', refreshTotals deps ⟨time, contract⟩ st = .ok st') →
        PagesArrive deps contract st 0 calls) ∧
      (st.validators.length ≤ calls.length →
        ((∃ sweep, pagedSync deps contract calls st = some sweep ∧ sweep.sent = sweep.pages.length) ↔
          (∃ time st', refreshTotals deps ⟨time, contract⟩ st = .ok st') ∧
            PagesFit deps contract st 0 calls))) := by
  have hlt : 0 < st.validators.length := Nat.zero_lt_of_lt hr.manned.cursor
  have hst : AtEdge deps contract st 0 st := by
    refine ⟨st.totals.totalBonded, st.totals.pendingRewards, ?_⟩
    rw [readUpTo_zero, ← h0]
  -- what a sweep leaves is a refresh
  have hsound : ∀ sweep, pagedSync deps contract calls st = some sweep →
      SweptFrom deps contract st 0 calls sweep ∧ sweep.store.syncCursor = 0 ∧
        ∃ call, calls[sweep.sent - 1]? = some call ∧
          refreshTotals deps ⟨call.time, contract⟩ st = .ok sweep.store := by
    intro sweep hs
    have h := pagedSync_atEdge hst hlt hs
    obtain ⟨call, tb, pr, ts, hcall, htb, hpr, hts, hstore⟩ := h.left
    rw [readUpTo_length] at htb hpr hstore
    have hread := h.readable
    rw [List.drop_zero] at hread
    refine ⟨h, by rw [hstore], call, hcall, refreshTotals_eq_ok.2
      ⟨List.ne_nil_of_length_pos hlt, hread, tb, pr, ts, htb, hpr, hts, ?_⟩⟩
    rw [hstore, ← h0]
  -- what a refresh says about the set
  have hrefresh : (∃ time st', refreshTotals deps ⟨time, contract⟩ st = .ok st') →
      Readable deps contract.address (st.validators.drop 0) ∧
        SumsFit deps contract st st.validators.length ∧ ∃ ts, mirrorSupply deps st = .ok ts := by
    rintro ⟨time, st', href⟩
    obtain ⟨-, hread, tb, pr, ts, htb, hpr, hts, -⟩ := refreshTotals_eq_ok.1 href
    rw [← readUpTo_length] at htb hpr
    exact ⟨List.drop_zero.symm ▸ hread, ⟨htb ▸ tb.isLt, hpr ▸ pr.isLt⟩, ts, hts⟩
  refine ⟨fun sweep hs => ?_, fun hends => ⟨⟨?_, ?_⟩, fun hlong href => ?_, fun hcalls => ⟨?_, ?_⟩⟩⟩
  · obtain ⟨h, hcursor, hlast⟩ := hsound sweep hs
    have hread := h.read
    rw [List.drop_zero] at hread
    exact ⟨h.le, h.sent, hread, hread ▸ hr.slotted.distinct, hcursor, hlast⟩
  · rintro ⟨sweep, hs⟩
    obtain ⟨-, -, call, -, href⟩ := hsound sweep hs
    obtain ⟨hread, -, ts, hts⟩ := hrefresh ⟨_, _, href⟩
    exact ⟨⟨_, _, href⟩, (pagedSync_arrives hst hlt hends hread hts).1 ⟨sweep, hs⟩⟩
  · rintro ⟨href, harrive⟩
    obtain ⟨hread, -, ts, hts⟩ := hrefresh href
    exact (pagedSync_arrives hst hlt hends hread hts).2 harrive
  · exact pagesArrive_of_long (hrefresh href).2.1 hlong
  · rintro ⟨sweep, hs, hsent⟩
    obtain ⟨-, -, call, -, href⟩ := hsound sweep hs
    obtain ⟨hread, -, ts, hts⟩ := hrefresh ⟨_, _, href⟩
    exact ⟨⟨_, _, href⟩, (pagedSync_unfailing hst hlt hends hread hts hcalls).1 ⟨sweep, hs, hsent⟩⟩
  · rintro ⟨href, hfit⟩
    obtain ⟨hread, -, ts, hts⟩ := hrefresh href
    exact (pagedSync_unfailing hst hlt hends hread hts hcalls).2 hfit

/-! ## Four validators -/

/-- Syncs by a keeper, one second after the other. -/
def devSyncs (limits : List ℕ) : List SyncCall :=
  limits.zipIdx.map fun (limit, i) => ⟨devStart + 60 + i, ⟨"keeper", []⟩, some limit⟩

/-- How many are sent up to the one that is done, and what each of those that go through reads. -/
def devSyncPages (view : Deps) (limits : List ℕ) (w : World) : Option (ℕ × List (List String)) :=
  (pagedSync (w.deps view 0) w.self (devSyncs limits) w.store).map fun sweep =>
    (sweep.sent, sweep.pages)

/-- A refresh goes through. -/
def devRefreshes (view : Deps) (w : World) : Bool :=
  (refreshTotals (w.deps view 0) w.env w.store).toOption.isSome

/-- The chain once all there is has been staked with one validator. -/
def devAllOn (validator : String) : Deps :=
  devView (Uint128.new 110000000) [(validator, Uint128.new (2 ^ 128 - 1), 0)]

/-- All there is has been read with the second validator. -/
def devAllRead : List Event :=
  [devBootstrap, devDeposit, devTx (devAllOn "validatortwo") "keeper" 0 (.sync none)]

set_option maxRecDepth 10000 in
/-- Pages of one, two and ten: the third Sync is done, and has left what a refresh in its second
does. Where all there is has gone over to the first validator, a page of one fails, since the second
is still cached with as much, and the next one, of ten, is done. -/
theorem paged_sync_refreshes_three :
    (∃ (w : World) (sweep : PagedSweep), Reachable w.store ∧ sweep.sent = 3 ∧
      sweep.pages = [["validatorone"], ["validatortwo", "validatorthree"], ["validatorfour"]] ∧
      refreshTotals (w.deps devBonded 0) ⟨devStart + 62, w.self⟩ w.store = .ok sweep.store ∧
      PagesFit (w.deps devBonded 0) w.self w.store 0 (devSyncs [1, 2, 10, 0])) ∧
    ∃ (w : World) (sweep : PagedSweep), Reachable w.store ∧ sweep.sent = 2 ∧
      sweep.pages = [["validatorone", "validatortwo", "validatorthree", "validatorfour"]] ∧
      refreshTotals (w.deps (devAllOn "validatorone") 0) ⟨devStart + 61, w.self⟩ w.store =
        .ok sweep.store := by
  have hpages : ([devBootstrap, devDeposit].foldlM World.step devWorld).map (fun w =>
      ((w.store.syncCursor, w.store.validators.length), devSyncPages devBonded [1, 2, 10, 0] w)) =
      some ((0, 4), some (3,
        [["validatorone"], ["validatortwo", "validatorthree"], ["validatorfour"]])) := by decide +kernel
  have hfails : (devAllRead.foldlM World.step devWorld).map (fun w =>
      ((w.store.syncCursor, w.store.validators.length, devRefreshes (devAllOn "validatorone") w),
        devSyncPages (devAllOn "validatorone") [1, 10] w)) =
      some ((0, 4, true), some (2,
        [["validatorone", "validatortwo", "validatorthree", "validatorfour"]])) := by decide +kernel
  constructor
  · obtain ⟨w, hw, hs⟩ := Option.map_eq_some_iff.1 hpages
    simp only [Prod.mk.injEq] at hs
    obtain ⟨⟨hcursor, hlen⟩, hs⟩ := hs
    obtain ⟨sweep, hsweep, hs⟩ := Option.map_eq_some_iff.1 hs
    obtain ⟨hsent, hread⟩ := Prod.mk.inj hs
    have hreach := World.replay_reachable devWorld_fresh hw
    obtain ⟨hall, hends⟩ := paged_sync_refreshes hreach hcursor
    obtain ⟨-, -, -, -, -, call, hcall, href⟩ := hall sweep hsweep
    rw [hsent] at hcall
    obtain rfl : call = ⟨devStart + 62, ⟨"keeper", []⟩, some 10⟩ := (Option.some.inj hcall).symm
    have hfit : EndsFit w.store.validators.length (devSyncs [1, 2, 10, 0]) := by
      rw [hlen]
      decide
    have hcount : w.store.validators.length ≤ (devSyncs [1, 2, 10, 0]).length := hlen.le
    have hgoes := ((hends hfit).2.2 hcount).1 ⟨sweep, hsweep, by rw [hsent, hread]; rfl⟩
    exact ⟨w, sweep, hreach, hsent, hread, href, hgoes.2⟩
  · obtain ⟨w, hw, hs⟩ := Option.map_eq_some_iff.1 hfails
    simp only [Prod.mk.injEq] at hs
    obtain ⟨⟨hcursor, hlen, href⟩, hs⟩ := hs
    have hreach := World.replay_reachable devWorld_fresh hw
    obtain ⟨hall, hends⟩ := paged_sync_refreshes hreach hcursor
    have hfit : EndsFit w.store.validators.length (devSyncs [1, 10]) := by
      rw [hlen]
      decide
    have hlong : ∃ call ∈ devSyncs [1, 10],
        w.store.validators.length ≤ call.limit.getD defaultSyncLimit := by
      rw [hlen]
      decide
    obtain ⟨st', href⟩ := Option.isSome_iff_exists.1 href
    rw [toOption_eq_some] at href
    -- the second of them takes in the whole set
    obtain ⟨hiff, harrive, -⟩ := hends hfit
    obtain ⟨sweep, hsweep⟩ := hiff.2 ⟨⟨_, _, href⟩, harrive hlong ⟨_, _, href⟩⟩
    obtain ⟨-, -, -, -, -, call, hcall, href⟩ := hall sweep hsweep
    rw [devSyncPages, hsweep] at hs
    obtain ⟨hsent, hread⟩ := Prod.mk.inj (Option.some.inj hs)
    rw [hsent] at hcall
    obtain rfl : call = ⟨devStart + 61, ⟨"keeper", []⟩, some 10⟩ := (Option.some.inj hcall).symm
    exact ⟨w, sweep, hreach, hsent, hread, href⟩

/-- The staking module does not answer for the third validator. -/
def devUnanswered : Deps := { devBonded with
  queryDelegation := fun delegator validator =>
    if validator = "validatorthree" then .error ⟨"unavailable"⟩
    else devBonded.queryDelegation delegator validator }

set_option maxRecDepth 10000 in
/-- A refresh goes through, and none of four Syncs in pages of one gets any further than the first
validator: what it reads and what is cached of the second do not add up in 128 bits. And neither they
nor a refresh get past a validator that the staking module does not answer for. -/
theorem paged_sync_stalls :
    (∃ w : World, Reachable w.store ∧ w.store.syncCursor = 0 ∧ w.store.validators.length = 4 ∧
      devRefreshes (devAllOn "validatorone") w = true ∧
      pagedSync (w.deps (devAllOn "validatorone") 0) w.self (devSyncs [1, 1, 1, 1]) w.store = none) ∧
    ∃ w : World, Reachable w.store ∧ w.store.syncCursor = 0 ∧ w.store.validators.length = 4 ∧
      devRefreshes devUnanswered w = false ∧
      pagedSync (w.deps devUnanswered 0) w.self (devSyncs [1, 1, 1, 1]) w.store = none := by
  have hsums : (devAllRead.foldlM World.step devWorld).map (fun w =>
      decide (w.store.syncCursor = 0 ∧ w.store.validators.length = 4 ∧
        devRefreshes (devAllOn "validatorone") w = true ∧
        devSyncPages (devAllOn "validatorone") [1, 1, 1, 1] w = none)) = some true := by decide +kernel
  have hread : ([devBootstrap, devDeposit].foldlM World.step devWorld).map (fun w =>
      decide (w.store.syncCursor = 0 ∧ w.store.validators.length = 4 ∧
        devRefreshes devUnanswered w = false ∧
        devSyncPages devUnanswered [1, 1, 1, 1] w = none)) = some true := by decide +kernel
  constructor
  · obtain ⟨w, hw, hs⟩ := Option.map_eq_some_iff.1 hsums
    obtain ⟨hcursor, hlen, href, hnone⟩ := of_decide_eq_true hs
    exact ⟨w, World.replay_reachable devWorld_fresh hw, hcursor, hlen, href,
      Option.map_eq_none_iff.1 hnone⟩
  · obtain ⟨w, hw, hs⟩ := Option.map_eq_some_iff.1 hread
    obtain ⟨hcursor, hlen, href, hnone⟩ := of_decide_eq_true hs
    exact ⟨w, World.replay_reachable devWorld_fresh hw, hcursor, hlen, href,
      Option.map_eq_none_iff.1 hnone⟩

end LstCore

import Spectuel.Api.MarketBars

/-!
# The pages of bars

The token after a page starts the next one behind the last timestamp, so rows with that timestamp that
were not on the page are lost (`lost_bar`).  A client gets all rows, each once, if and only if no page
ends between two rows with the same timestamp and every request is still within the lookback of the
timeframe (`complete_iff`).
-/

set_option autoImplicit false

namespace Spectuel

namespace BarsClient

variable (c : BarsClient) {i : ℕ} {s t : ℤ} {token : Option PageToken}

/-! ## The rows behind a timestamp -/

theorem timesFrom_sorted (s : ℤ) : (c.timesFrom s).Pairwise (· ≤ ·) :=
  List.sortedLE_mergeSort.pairwise

theorem timesFrom_perm (s : ℤ) : (c.timesFrom s).Perm ((c.rowsFrom s).map OhlcRow.timestamp) :=
  List.mergeSort_perm _ _

theorem length_timesFrom (s : ℤ) : (c.timesFrom s).length = (c.rowsFrom s).length := by
  rw [(c.timesFrom_perm s).length_eq, List.length_map]

theorem rowsFrom_after (h : s ≤ t) :
    c.rowsFrom (t + 1) = (c.rowsFrom s).filter fun r ↦ t < r.timestamp := by
  rw [rowsFrom, rowsFrom, barsBetween, barsBetween, List.filter_filter]
  refine List.filter_congr fun r _ ↦ ?_
  rw [← Bool.decide_and, decide_eq_decide]
  constructor
  · rintro ⟨h₁, h₂, h₃, h₄⟩
    exact ⟨by omega, h₁, h₂, by omega, h₄⟩
  · rintro ⟨h₀, h₁, h₂, h₃, h₄⟩
    exact ⟨h₁, h₂, by omega, h₄⟩

theorem timesFrom_after (h : s ≤ t) : c.timesFrom (t + 1) = (c.timesFrom s).filter (t < ·) := by
  refine List.Perm.eq_of_pairwise' (c.timesFrom_sorted _)
    ((c.timesFrom_sorted s).sublist List.filter_sublist) ?_
  have hmap : ((c.rowsFrom s).filter fun r ↦ t < r.timestamp).map OhlcRow.timestamp =
      ((c.rowsFrom s).map OhlcRow.timestamp).filter (t < ·) := by
    rw [List.filter_map]
    rfl
  refine (c.timesFrom_perm _).trans ?_
  rw [c.rowsFrom_after h, hmap]
  exact ((c.timesFrom_perm s).filter _).symm

/-- The timestamps of the rows as the database returns them. -/
theorem map_timestamp_rows (o : OrderBy) (s : ℤ) :
    (o.rows (c.rowsFrom s)).map OhlcRow.timestamp = c.timesFrom s := by
  refine List.Perm.eq_of_pairwise' ?_ (c.timesFrom_sorted s) ?_
  · exact List.pairwise_map.2 (o.sorted _)
  · exact ((o.perm _).map _).trans (c.timesFrom_perm s).symm

theorem length_rows (o : OrderBy) (s : ℤ) :
    (o.rows (c.rowsFrom s)).length = (c.timesFrom s).length := by
  rw [← c.map_timestamp_rows o s, List.length_map]

theorem le_of_mem_timesFrom {x : ℤ} (h : x ∈ c.timesFrom s) : s ≤ x := by
  rw [(c.timesFrom_perm s).mem_iff, rowsFrom, barsBetween] at h
  obtain ⟨r, hr, rfl⟩ := List.mem_map.1 h
  have := (List.mem_filter.1 hr).2
  simp only [decide_eq_true_eq] at this
  exact this.2.2.1

/-! ## One request -/

/-- Where the `i`-th request starts to read. -/
def Starts (token : Option PageToken) (s : ℤ) : Prop :=
  token = none ∧ s = c.startDate ∨ token = some (.data (some s))

theorem barsRange_of_not_accepted (h : ¬ c.Accepted i) (token : Option PageToken) :
    ∃ e, barsRange (c.clock i) c.timeframe (some c.startDate) (some c.endDate) token = .error e := by
  rw [Accepted, not_and_or, not_le] at h
  by_cases hend : c.endDate > c.clock i
  · exact ⟨_, by simp only [barsRange, if_pos hend]; rfl⟩
  · have hstart := h.resolve_left hend
    simp only [not_forall, not_le] at hstart
    obtain ⟨lookback, hl, hlt⟩ := hstart
    exact ⟨_, by simp only [barsRange, if_neg hend, hl, if_pos hlt]; rfl⟩

theorem barsRange_of_accepted (h : c.Accepted i) (hs : c.Starts token s) :
    barsRange (c.clock i) c.timeframe (some c.startDate) (some c.endDate) token =
      .ok (s, c.endDate) := by
  obtain ⟨hend, hstart⟩ := h
  obtain ⟨lookback, hl⟩ : ∃ lookback, timeframeLookback c.timeframe = some lookback := by
    cases c.timeframe <;> exact ⟨_, rfl⟩
  have hlt := not_lt.2 (hstart lookback hl)
  rcases hs with ⟨rfl, rfl⟩ | rfl
  · simp only [barsRange, if_neg (not_lt.2 hend), hl, if_neg hlt]
    rfl
  · simp only [barsRange, if_neg (not_lt.2 hend), hl, if_neg hlt]
    rfl

/-- The page that an execution returns. -/
def page (o : OrderBy) (s : ℤ) : List BarData :=
  ((o.rows (c.rowsFrom s)).take barLimit).map .ofRow

/-- **The last page.** -/
theorem readBars_last (o : OrderBy) (h : (c.timesFrom s).length ≤ barLimit) :
    readBars o (c.rowsFrom s) = { bars := (o.rows (c.rowsFrom s)).map .ofRow, nextPageToken := none } := by
  have hlen := c.length_rows o s
  have hall : (o.rows (c.rowsFrom s)).take (barLimit + 1) = o.rows (c.rowsFrom s) :=
    List.take_of_length_le (by omega)
  have hpage : (o.rows (c.rowsFrom s)).take barLimit = o.rows (c.rowsFrom s) :=
    List.take_of_length_le (by omega)
  rw [readBars, hall, hpage, if_neg (by omega)]

/-- **A page that is followed by another one.** -/
theorem readBars_next (o : OrderBy) (h : barLimit < (c.timesFrom s).length)
    (ht : (c.timesFrom s)[barLimit - 1]? = some t) :
    readBars o (c.rowsFrom s) = { bars := c.page o s, nextPageToken := some (.data (some (t + 1))) } := by
  have hlen := c.length_rows o s
  have htake : ((o.rows (c.rowsFrom s)).take (barLimit + 1)).take barLimit =
      (o.rows (c.rowsFrom s)).take barLimit := by rw [List.take_take, min_eq_left (Nat.le_succ _)]
  have hlast : ((o.rows (c.rowsFrom s)).take barLimit).getLast?.map OhlcRow.timestamp = some t := by
    rw [← ht, ← c.map_timestamp_rows o s, List.getElem?_map, List.getLast?_eq_getElem?,
      List.length_take, min_eq_left (by omega), List.getElem?_take, if_pos (by decide)]
  obtain ⟨bar, hbar, rfl⟩ := Option.map_eq_some_iff.1 hlast
  rw [readBars, htake, hbar, if_pos (by rw [List.length_take]; omega)]
  rfl

/-! ## All requests -/

theorem follow_of_not_accepted (h : ¬ c.Accepted i) (fuel : ℕ) :
    ∃ e, c.follow (fuel + 1) i token = some (.error e) := by
  obtain ⟨e, he⟩ := c.barsRange_of_not_accepted h token
  refine ⟨e, ?_⟩
  rw [follow, getMarketBars, he]
  rfl

theorem follow_last (h : c.Accepted i) (hs : c.Starts token s)
    (hlen : (c.timesFrom s).length ≤ barLimit) (fuel : ℕ) :
    c.follow (fuel + 1) i token = some (.ok (((c.orderBy i).rows (c.rowsFrom s)).map .ofRow)) := by
  have hread := c.readBars_last (c.orderBy i) hlen
  rw [rowsFrom] at hread
  rw [follow, getMarketBars, c.barsRange_of_accepted h hs]
  simp only [bind, Except.bind, pure, Except.pure, hread]
  rfl

theorem follow_next (h : c.Accepted i) (hs : c.Starts token s)
    (hlen : barLimit < (c.timesFrom s).length) (ht : (c.timesFrom s)[barLimit - 1]? = some t)
    (fuel : ℕ) : c.follow (fuel + 1) i token =
      (c.follow fuel (i + 1) (some (.data (some (t + 1))))).map fun rest ↦
        rest.map (c.page (c.orderBy i) s ++ ·) := by
  have hread := c.readBars_next (c.orderBy i) hlen ht
  rw [rowsFrom] at hread
  rw [follow, getMarketBars, c.barsRange_of_accepted h hs]
  simp only [bind, Except.bind, pure, Except.pure, hread]

/-- A page that is followed by another one ends with some timestamp, from which on there are fewer
rows. -/
theorem exists_last (hlen : barLimit < (c.timesFrom s).length) :
    ∃ t, (c.timesFrom s)[barLimit - 1]? = some t ∧ s ≤ t ∧
      (c.timesFrom (t + 1)).length ≤ (c.timesFrom s).length - barLimit := by
  have hlt : barLimit - 1 < (c.timesFrom s).length := by omega
  have hle := c.le_of_mem_timesFrom (List.getElem_mem hlt)
  refine ⟨_, List.getElem?_eq_getElem hlt, hle, ?_⟩
  rw [c.timesFrom_after hle]
  exact Pages.length_filter_lt_le (c.timesFrom_sorted s) (List.getElem?_eq_getElem hlt)

/-- The bars of a page are no later than its last timestamp. -/
theorem le_of_mem_page (o : OrderBy) (ht : (c.timesFrom s)[barLimit - 1]? = some t) {b : BarData}
    (hb : b ∈ c.page o s) : b.timestamp ≤ t := by
  obtain ⟨r, hr, rfl⟩ := List.mem_map.1 hb
  refine Pages.le_of_mem_take (c.timesFrom_sorted s) ht ?_
  rw [← c.map_timestamp_rows o s, ← List.map_take]
  exact List.mem_map_of_mem hr

/-- The rows behind a page are among those that were not on it. -/
theorem rowsFrom_subperm (o : OrderBy) (ht : (c.timesFrom s)[barLimit - 1]? = some t) (hst : s ≤ t) :
    (c.rowsFrom (t + 1)).Subperm ((o.rows (c.rowsFrom s)).drop barLimit) := by
  have htake : ((o.rows (c.rowsFrom s)).take barLimit).filter (fun r ↦ t < r.timestamp) = [] := by
    refine List.filter_eq_nil_iff.2 fun r hr ↦ ?_
    have hle : r.timestamp ≤ t := c.le_of_mem_page o ht (List.mem_map_of_mem hr)
    simpa using hle
  have hperm : (c.rowsFrom (t + 1)).Perm
      (((o.rows (c.rowsFrom s)).drop barLimit).filter fun r ↦ t < r.timestamp) := by
    rw [c.rowsFrom_after hst]
    refine ((o.perm (c.rowsFrom s)).symm.filter _).trans ?_
    conv_lhs => rw [← List.take_append_drop barLimit (o.rows (c.rowsFrom s)), List.filter_append, htake]
    rfl
  exact hperm.subperm.trans List.filter_sublist.subperm

/-- **What the pages return** is sorted, and each row is returned at most once. -/
theorem follow_sound (fuel : ℕ) {bars : List BarData} (hs : c.Starts token s)
    (hrun : c.follow fuel i token = some (.ok bars)) :
    bars.Subperm ((c.rowsFrom s).map .ofRow) ∧
      bars.Pairwise fun b b' ↦ b.timestamp ≤ b'.timestamp := by
  induction fuel generalizing i token s bars with
  | zero => cases hrun
  | succ fuel ih =>
    by_cases hacc : c.Accepted i
    · have hperm := (c.orderBy i).perm (c.rowsFrom s)
      have hsorted := (c.orderBy i).sorted (c.rowsFrom s)
      by_cases hlen : (c.timesFrom s).length ≤ barLimit
      · rw [c.follow_last hacc hs hlen, Option.some_inj, Except.ok.injEq] at hrun
        rw [← hrun]
        exact ⟨(hperm.map _).subperm, List.pairwise_map.2 hsorted⟩
      · obtain ⟨t, ht, hst, -⟩ := c.exists_last (not_le.1 hlen)
        rw [c.follow_next hacc hs (not_le.1 hlen) ht, Option.map_eq_some_iff] at hrun
        obtain ⟨result, hrest, hmap⟩ := hrun
        cases result with
        | error e => cases hmap
        | ok rest =>
          obtain rfl : c.page (c.orderBy i) s ++ rest = bars := Except.ok.inj hmap
          obtain ⟨hsub, hrsorted⟩ := ih (.inr rfl) hrest
          constructor
          · obtain ⟨l, hl, hsublist⟩ := c.rowsFrom_subperm (c.orderBy i) ht hst
            have hdrop : ((c.rowsFrom (t + 1)).map BarData.ofRow).Subperm
                (((c.orderBy i).rows (c.rowsFrom s)).drop barLimit |>.map BarData.ofRow) :=
              ⟨l.map _, hl.map _, hsublist.map _⟩
            refine ((List.subperm_append_left _).2 (hsub.trans hdrop)).trans ?_
            rw [page, ← List.map_append, List.take_append_drop]
            exact (hperm.map _).subperm
          · refine List.pairwise_append.2 ⟨?_, hrsorted, fun b hb b' hb' ↦ ?_⟩
            · exact List.pairwise_map.2 (hsorted.sublist (List.take_sublist _ _))
            · obtain ⟨r, hr, rfl⟩ := List.mem_map.1 (hsub.subset hb')
              have hle := c.le_of_mem_timesFrom
                ((c.timesFrom_perm _).mem_iff.2 (List.mem_map_of_mem hr))
              have hpage := c.le_of_mem_page _ ht hb
              have heq : (BarData.ofRow r).timestamp = r.timestamp := rfl
              omega
    · obtain ⟨e, he⟩ := c.follow_of_not_accepted hacc fuel
      rw [he] at hrun
      cases hrun

/-- From the `i`-th request on, the pages return as many bars as there are rows. -/
def ReturnsAll (i : ℕ) (token : Option PageToken) (s : ℤ) : Prop :=
  ∃ fuel bars, c.follow fuel i token = some (.ok bars) ∧ bars.length = (c.timesFrom s).length

/-- From the `i`-th request on, the requests are accepted and the pages fit. -/
def FitsFrom (i : ℕ) (s : ℤ) : Prop :=
  (∀ k, k = 0 ∨ barLimit * k < (c.timesFrom s).length → c.Accepted (i + k)) ∧
    Pages.Fits barLimit (c.timesFrom s)

theorem returnsAll_iff_of_not_accepted (h : ¬ c.Accepted i) :
    c.ReturnsAll i token s ↔ c.FitsFrom i s := by
  refine iff_of_false ?_ fun hfits ↦ h (hfits.1 0 (.inl rfl))
  rintro ⟨fuel, bars, hrun, -⟩
  cases fuel with
  | zero => cases hrun
  | succ fuel =>
    obtain ⟨e, he⟩ : ∃ e, c.follow (fuel + 1) i token = some (.error e) :=
      c.follow_of_not_accepted h fuel
    rw [he] at hrun
    cases hrun

theorem returnsAll_iff_last (h : c.Accepted i) (hs : c.Starts token s)
    (hlen : (c.timesFrom s).length ≤ barLimit) : c.ReturnsAll i token s ↔ c.FitsFrom i s := by
  refine iff_of_true ⟨1, _, c.follow_last h hs hlen 0, ?_⟩ ⟨?_, Pages.fits_of_length_le hlen⟩
  · rw [List.length_map, c.length_rows]
  · rintro k (rfl | hk)
    · exact h
    · cases k with
      | zero => exact h
      | succ k =>
        have hle : barLimit ≤ barLimit * (k + 1) := Nat.le_mul_of_pos_right _ (Nat.succ_pos k)
        omega

/-- All rows are returned when the page leaves none behind and the next ones return all rows. -/
theorem returnsAll_next (h : c.Accepted i) (hs : c.Starts token s)
    (hlen : barLimit < (c.timesFrom s).length) (ht : (c.timesFrom s)[barLimit - 1]? = some t)
    (hle : (c.timesFrom (t + 1)).length ≤ (c.timesFrom s).length - barLimit) :
    c.ReturnsAll i token s ↔ (c.timesFrom (t + 1)).length = (c.timesFrom s).length - barLimit ∧
      c.ReturnsAll (i + 1) (some (.data (some (t + 1)))) (t + 1) := by
  have hpage : (c.page (c.orderBy i) s).length = barLimit := by
    rw [page, List.length_map, List.length_take, c.length_rows]
    omega
  constructor
  · rintro ⟨fuel, bars, hfollow, hbars⟩
    cases fuel with
    | zero => cases hfollow
    | succ fuel =>
      rw [c.follow_next h hs hlen ht, Option.map_eq_some_iff] at hfollow
      obtain ⟨result, hrest, hmap⟩ := hfollow
      cases result with
      | error e => cases hmap
      | ok rest =>
        obtain rfl : c.page (c.orderBy i) s ++ rest = bars := Except.ok.inj hmap
        have hsub := List.Subperm.length_le (c.follow_sound fuel (.inr rfl) hrest).1
        rw [List.length_map, ← c.length_timesFrom] at hsub
        rw [List.length_append, hpage] at hbars
        exact ⟨by omega, fuel, rest, hrest, by omega⟩
  · rintro ⟨heq, fuel, rest, hrest, hlength⟩
    refine ⟨fuel + 1, c.page (c.orderBy i) s ++ rest, ?_, ?_⟩
    · rw [c.follow_next h hs hlen ht, hrest]
      rfl
    · rw [List.length_append, hpage]
      omega

/-- The pages fit when the first one does not end between equal timestamps and the others fit. -/
theorem fitsFrom_next (h : c.Accepted i) (hlen : barLimit < (c.timesFrom s).length)
    (ht : (c.timesFrom s)[barLimit - 1]? = some t) (hst : s ≤ t) :
    c.FitsFrom i s ↔ (c.timesFrom (t + 1)).length = (c.timesFrom s).length - barLimit ∧
      c.FitsFrom (i + 1) (t + 1) := by
  obtain ⟨b, hb⟩ : ∃ b, (c.timesFrom s)[barLimit]? = some b := ⟨_, List.getElem?_eq_getElem hlen⟩
  have hsorted := c.timesFrom_sorted s
  have hkept : t ≠ b ↔ (c.timesFrom (t + 1)).length = (c.timesFrom s).length - barLimit := by
    rw [c.timesFrom_after hst, ← Pages.filter_lt_eq_drop_iff_length hsorted ht]
    exact (Pages.filter_lt_eq_drop_iff hsorted ht hb).symm
  rw [FitsFrom, FitsFrom, Pages.fits_iff ht hb (by decide), ← hkept, and_left_comm]
  refine and_congr_right fun hne ↦ ?_
  have hdrop : c.timesFrom (t + 1) = (c.timesFrom s).drop barLimit := by
    rw [c.timesFrom_after hst]
    exact (Pages.filter_lt_eq_drop_iff hsorted ht hb).2 hne
  rw [hdrop, List.length_drop]
  refine and_congr_left fun _ ↦ ⟨fun hall k hk ↦ ?_, fun hall k hk ↦ ?_⟩
  · have hk' : barLimit * (k + 1) < (c.timesFrom s).length := by
      rw [Nat.mul_add, Nat.mul_one]
      rcases hk with rfl | hk <;> omega
    have hnext := hall (k + 1) (.inr hk')
    rwa [Nat.add_comm k 1, ← Nat.add_assoc] at hnext
  · cases k with
    | zero => exact h
    | succ k =>
      have hk' := hk.resolve_left (Nat.succ_ne_zero k)
      rw [Nat.mul_add, Nat.mul_one] at hk'
      have hnext := hall k (.inr (by omega))
      rwa [Nat.add_assoc, Nat.add_comm 1 k] at hnext

/-- **When the pages return all rows.** -/
theorem returnsAll_iff (n : ℕ) (hn : (c.timesFrom s).length ≤ n) (hs : c.Starts token s) :
    c.ReturnsAll i token s ↔ c.FitsFrom i s := by
  induction n generalizing i token s with
  | zero =>
    by_cases hacc : c.Accepted i
    · exact c.returnsAll_iff_last hacc hs (hn.trans (Nat.zero_le _))
    · exact c.returnsAll_iff_of_not_accepted hacc
  | succ n ih =>
    by_cases hacc : c.Accepted i
    · by_cases hlen : (c.timesFrom s).length ≤ barLimit
      · exact c.returnsAll_iff_last hacc hs hlen
      · rw [not_le] at hlen
        obtain ⟨t, ht, hst, hle⟩ := c.exists_last hlen
        have hlimit : 0 < barLimit := by decide
        rw [c.returnsAll_next hacc hs hlen ht hle, c.fitsFrom_next hacc hlen ht hst,
          ih (by omega) (.inr rfl)]
    · exact c.returnsAll_iff_of_not_accepted hacc

end BarsClient

/-- **When a client gets every bar once.** -/
theorem bars_complete_iff (c : BarsClient) : c.Complete ↔ c.PagesFit := by
  have hs : c.Starts none c.startDate := .inl ⟨rfl, rfl⟩
  have hlen : (c.timesFrom c.startDate).length = ((c.rowsFrom c.startDate).map BarData.ofRow).length := by
    rw [c.length_timesFrom, List.length_map]
  have hfits : c.PagesFit ↔ c.FitsFrom 0 c.startDate := by
    simp only [BarsClient.PagesFit, BarsClient.FitsFrom, Nat.zero_add]
  rw [hfits, ← c.returnsAll_iff _ le_rfl hs]
  constructor
  · rintro ⟨fuel, bars, hrun, hperm, -⟩
    exact ⟨fuel, bars, hrun, by rw [hlen, hperm.length_eq]⟩
  · rintro ⟨fuel, bars, hrun, hlength⟩
    obtain ⟨hsub, hsorted⟩ := c.follow_sound fuel hs hrun
    exact ⟨fuel, bars, hrun, hsub.perm_of_length_le (by omega), hsorted⟩

/-- A bar of the first second. -/
def barOfFirstSecond (id : ℕ) : OhlcRow where
  id
  symbol := "BTC"
  timeframe := "1m"
  timestamp := 0
  opening := 1
  high := 1
  low := 1
  close := 1

/-- A client that asks for the first second, in which there are 501 bars. -/
def crowdedSecond : BarsClient where
  clock _ := 100
  orderBy _ := stableOrderBy
  table := (List.range 501).map barOfFirstSecond
  symbol := "BTC"
  timeframe := .m1
  startDate := 0
  endDate := 0

/-- The 501st bar is lost. -/
theorem lost_bar : ¬ crowdedSecond.Complete := by
  have hrows : crowdedSecond.rowsFrom 0 = (List.range 501).map barOfFirstSecond := by
    have htable : crowdedSecond.table = (List.range 501).map barOfFirstSecond := by
      rw [crowdedSecond]
    rw [BarsClient.rowsFrom, barsBetween, htable, List.filter_eq_self]
    intro r hr
    obtain ⟨id, -, rfl⟩ := List.mem_map.1 hr
    rfl
  have hlength : (crowdedSecond.timesFrom 0).length = 501 := by
    rw [BarsClient.length_timesFrom, hrows, List.length_map, List.length_range]
  have htimes : ∀ k < 501, (crowdedSecond.timesFrom 0)[k]? = some 0 := by
    intro k hk
    have hmem := List.getElem_mem (hlength ▸ hk)
    rw [(crowdedSecond.timesFrom_perm 0).mem_iff, hrows] at hmem
    obtain ⟨r, hr, heq⟩ := List.mem_map.1 hmem
    obtain ⟨id, -, rfl⟩ := List.mem_map.1 hr
    rw [List.getElem?_eq_getElem (hlength ▸ hk), ← heq]
    rfl
  rintro ⟨fuel, bars, hrun, hperm, -⟩
  have hall : crowdedSecond.ReturnsAll 0 none 0 := by
    refine ⟨fuel, bars, hrun, ?_⟩
    rw [hperm.length_eq, List.length_map, BarsClient.length_timesFrom]
    rfl
  have hfits := ((crowdedSecond.returnsAll_iff _ le_rfl (.inl ⟨rfl, rfl⟩)).1 hall).2
  exact hfits 1 0 0 one_pos (htimes 499 (by decide)) (htimes 500 (by decide)) rfl

end Spectuel

import Wanchain.Privacy.Ota

/-!
# Drawing the mixes of a ring signature

`GetOTASet` of `core/vm/ota_storage.go` draws `setNum` one-time addresses of the balance of
`otaAX` from the storage of that balance, to hide the signer's among them. It walks the storage
again and again (`ForEachStorageByteArray`) until the set is full. Every value visited is
counted in `mptEleCount`; the value of `otaAX` itself and values already drawn are passed over;
any other value raises `loopTimes` and is drawn when `loopTimes` is a multiple of `rnd`, a fresh
`rand.Intn(100) + 1` after each draw.

The walks visit the stored values, each once, in an order of their own (`order k` for the
`k`-th walk: the storage's cached entries come first, in map order). That is the walk of
`ForEachStorageByteArray` from `MercuryEpochId` on. Before it, `ForEachStorageByteArrayBeforeFork`
skips in the trie the keys of the other cache, `cachedStorage`, so it can visit a cached entry
twice; `GetOTASet_draws` assumes a walk that visits each value once and says nothing of those
epochs. The random draws are a
sequence `rand`, `rand k` the `k`-th result of `rand.Intn(100)`. The loop has no bound, so the
model runs it on a fuel of walks and returns `none` when the fuel runs out.

With more stored values than `setNum`, all stored by `setOTA`, the draw ends within
`101 * (setNum + 1)` walks with `setNum` distinct values, none of them `otaAX`'s
(`GetOTASet_draws`). The measure is the slots left, each worth more than the longest wait for a
draw, plus the visits left until `loopTimes` next reaches a multiple of `rnd`; each walk that
does not fill the set visits a value not drawn yet, which lowers it.
-/

namespace Wanchain.Privacy

open KeyedList

/-- `fmt.Sprint` of a byte slice: its bytes in decimal, between brackets. -/
def sprintBytes (b : Bytes) : String :=
  "[" ++ " ".intercalate (b.map fun x => toString x.toNat) ++ "]"

/-- `GetOTASetEnv`, with the number of draws of `rand.Intn` made so far. A negative `setNum`
makes `make` panic before the loop, so `setNum` is a natural number. -/
structure GetOTASetEnv where
  otaAX : Bytes
  setNum : ℕ
  getNum : ℕ
  loopTimes : ℕ
  rnd : ℕ
  otaWanAddrSet : List Bytes
  draws : ℕ

namespace GetOTASetEnv

/-- `OTAInSet`. -/
def OTAInSet (env : GetOTASetEnv) (ota : Bytes) : Bool := env.otaWanAddrSet.contains ota

/-- `UpdateRnd`: `rnd = rand.Intn(100) + 1`, the draw numbered `draws`. -/
def UpdateRnd (rand : ℕ → ℕ) (env : GetOTASetEnv) : GetOTASetEnv :=
  { env with rnd := rand env.draws + 1, draws := env.draws + 1 }

/-- `IsSetFull`. -/
def IsSetFull (env : GetOTASetEnv) : Bool := decide (env.getNum ≥ env.setNum)

/-- `RandomSelOTA`. -/
def RandomSelOTA (rand : ℕ → ℕ) (env : GetOTASetEnv) (value : Bytes) : Bool × GetOTASetEnv :=
  let env := { env with loopTimes := env.loopTimes + 1 }
  if env.loopTimes % env.rnd = 0 then
    (true, UpdateRnd rand
      { env with otaWanAddrSet := env.otaWanAddrSet ++ [value], getNum := env.getNum + 1 })
  else (false, env)

end GetOTASetEnv

/-- `IsAXPointToWanAddr`. -/
def IsAXPointToWanAddr (AX otaWanAddr : Bytes) : Bool :=
  match GetAXFromWanAddr otaWanAddr with
  | .error _ => false
  | .ok findAX => findAX == AX

/-- `doOTAStorageTravelCallBack`, whose error is always nil: go on walking, and the env. -/
def doOTAStorageTravelCallBack (rand : ℕ → ℕ) (env : GetOTASetEnv) (value : Bytes) :
    Bool × GetOTASetEnv :=
  if IsAXPointToWanAddr env.otaAX value then (true, env)
  else if env.OTAInSet value then (true, env)
  else
    let r := env.RandomSelOTA rand value
    if r.1 then (!r.2.IsSetFull, r.2) else (true, r.2)

/-- One `ForEachStorageByteArray` over the values of the set with the callback of `GetOTASet`:
the env, `mptEleCount`, and `err`. -/
def travelOTASet (rand : ℕ → ℕ) (balance : ℕ) :
    List Bytes → GetOTASetEnv → ℕ → Option String → GetOTASetEnv × ℕ × Option String
  | [], env, mptEleCount, err => (env, mptEleCount, err)
  | value :: rest, env, mptEleCount, err =>
    let mptEleCount := mptEleCount + 1
    if value.length ≠ WAddressLength then
      (env, mptEleCount, some ("invalid OTA address! balance:" ++ toString balance ++ ", ota:" ++
        sprintBytes value))
    else
      let r := doOTAStorageTravelCallBack rand env value
      if r.1 then travelOTASet rand balance rest r.2 mptEleCount err else (r.2, mptEleCount, err)

/-- What `GetOTASet` returns: the set, the balance and the error, each possibly nil. -/
structure OTASetResult where
  otaWanAddrs : Option (List Bytes)
  balance : Option ℕ
  err : Option String
  deriving DecidableEq, Repr

/-- The values of the storage at `mptAddr`. -/
def mptValues (st : OtaStorage) (mptAddr : Address) : List Bytes :=
  (st.sets.entries.filter (·.1.1 = mptAddr)).map (·.2)

/-- The `for` loop of `GetOTASet`, on a fuel of walks; walk number `pass` visits the values in
the order `order pass`. -/
def getOTASetLoop (rand : ℕ → ℕ) (order : ℕ → List Bytes → List Bytes) (vals : List Bytes)
    (setNum balance : ℕ) : ℕ → ℕ → GetOTASetEnv → ℕ → Option OTASetResult
  | 0, _, _, _ => none
  | fuel + 1, pass, env, mptEleCount =>
    let r := travelOTASet rand balance (order pass vals) env mptEleCount none
    let env := r.1
    let mptEleCount := r.2.1
    if env.IsSetFull then some ⟨some env.otaWanAddrSet, some balance, none⟩
    else
      match r.2.2 with
      | some err => some ⟨none, none, some err⟩
      | none =>
        if mptEleCount = 0 then
          some ⟨none, some balance, some ("no ota exist! balance:" ++ toString balance)⟩
        else if setNum ≥ mptEleCount then
          some ⟨none, some balance, some ("too more required ota number! balance:" ++
            toString balance ++ ", exist count:" ++ toString mptEleCount)⟩
        else getOTASetLoop rand order vals setNum balance fuel (pass + 1) env mptEleCount

/-- `GetOTASet(statedb, otaAX, setNum)`, on a fuel of walks. -/
def GetOTASet (rand : ℕ → ℕ) (order : ℕ → List Bytes → List Bytes) (fuel : ℕ) (st : OtaStorage)
    (otaAX : Bytes) (setNum : ℕ) : Option OTASetResult :=
  if otaAX.length ≠ HashLength then some ⟨none, none, some "invalid OTA AX"⟩
  else
    match GetOtaBalanceFromAX st otaAX with
    | .error e => some ⟨none, none, some e⟩
    | .ok balance =>
      if balance = 0 then some ⟨none, none, some "can't find ota address balance!"⟩
      else
        let env := GetOTASetEnv.UpdateRnd rand ⟨otaAX, setNum, 0, 0, 0, [], 0⟩
        getOTASetLoop rand order (mptValues st (OTABalance2ContractAddr balance)) setNum balance
          fuel 0 env 0

/-! ### One visit -/

/-- What the draw keeps: the set is of distinct values of the storage, none of them `otaAX`'s,
`getNum` counts it and stays within `setNum`, and `rnd` is a draw plus one. -/
structure DrawInv (vals : List Bytes) (otaAX : Bytes) (setNum : ℕ) (env : GetOTASetEnv) :
    Prop where
  otaAX_eq : env.otaAX = otaAX
  setNum_eq : env.setNum = setNum
  getNum_eq : env.getNum = env.otaWanAddrSet.length
  getNum_le : env.getNum ≤ setNum
  nodup : env.otaWanAddrSet.Nodup
  drawn : ∀ v ∈ env.otaWanAddrSet, v ∈ vals ∧ IsAXPointToWanAddr otaAX v = false
  rnd_pos : 0 < env.rnd
  rnd_le : env.rnd ≤ 100

/-- The slots left, each worth more than the longest wait for a draw, plus the visits left until
`loopTimes` next reaches a multiple of `rnd`. -/
def drawMeasure (env : GetOTASetEnv) : ℕ :=
  (env.setNum - env.getNum) * 101 + (env.rnd - env.loopTimes % env.rnd)

/-- A visit that draws nothing moves `loopTimes` one step closer to the next multiple. -/
lemma succ_mod_of_ne_zero {L r : ℕ} (hr : 0 < r) (h : (L + 1) % r ≠ 0) :
    (L + 1) % r = L % r + 1 := by
  have hlt := Nat.mod_lt L hr
  -- modulo 1 every number is 0, so `r` is at least 2
  have h1 : 1 < r := by
    by_contra h1
    have hr1 : r = 1 := by omega
    exact h (by rw [hr1, Nat.mod_one])
  rw [Nat.add_mod_eq_ite, Nat.mod_eq_of_lt h1] at h ⊢
  split_ifs at h ⊢ <;> omega

section Visit

variable {rand : ℕ → ℕ} {vals : List Bytes} {otaAX : Bytes} {setNum : ℕ}

/-- One visit of a stored value keeps the invariant and does not raise the measure; a visit of a
value that may be drawn and is not drawn yet lowers it. The set grows by the value at most, and
the walk stops exactly when the set is full. -/
lemma callBack_spec (hrand : ∀ k, rand k < 100) {env env' : GetOTASetEnv} {v : Bytes} {c : Bool}
    (hI : DrawInv vals otaAX setNum env) (hfull : env.IsSetFull = false) (hv : v ∈ vals)
    (h : doOTAStorageTravelCallBack rand env v = (c, env')) :
    DrawInv vals otaAX setNum env' ∧ drawMeasure env' ≤ drawMeasure env ∧
      (IsAXPointToWanAddr otaAX v = false → v ∉ env.otaWanAddrSet →
        drawMeasure env' < drawMeasure env) ∧
      (env'.otaWanAddrSet = env.otaWanAddrSet ∨ env'.otaWanAddrSet = env.otaWanAddrSet ++ [v]) ∧
      c = !env'.IsSetFull := by
  have hlt : env.getNum < setNum := by
    simpa [GetOTASetEnv.IsSetFull, hI.setNum_eq] using hfull
  unfold doOTAStorageTravelCallBack at h
  rw [hI.otaAX_eq] at h
  split_ifs at h with hself hin
  · -- the value of `otaAX` itself is passed over
    cases h
    exact ⟨hI, le_rfl, fun hs => absurd hs (by simp [hself]), .inl rfl, by simp [hfull]⟩
  · -- a value already drawn is passed over
    cases h
    have hmem : v ∈ env.otaWanAddrSet := by simpa [GetOTASetEnv.OTAInSet] using hin
    exact ⟨hI, le_rfl, fun _ hn => absurd hmem hn, .inl rfl, by simp [hfull]⟩
  · have hnot : v ∉ env.otaWanAddrSet := by simpa [GetOTASetEnv.OTAInSet] using hin
    simp only [Bool.not_eq_true] at hself
    unfold GetOTASetEnv.RandomSelOTA at h
    dsimp only at h
    by_cases hsel : (env.loopTimes + 1) % env.rnd = 0
    · -- drawn: one slot less, whatever the fresh `rnd`
      rw [if_pos hsel] at h
      dsimp only [GetOTASetEnv.UpdateRnd, GetOTASetEnv.IsSetFull] at h
      cases h
      have hr := hrand env.draws
      have hmod := Nat.mod_lt (env.loopTimes + 1) (show 0 < rand env.draws + 1 by omega)
      refine ⟨⟨hI.otaAX_eq, hI.setNum_eq, ?_, by dsimp only; omega, ?_, ?_, by dsimp only; omega,
        by dsimp only; omega⟩, ?_, fun _ _ => ?_, .inr rfl, rfl⟩
      · simp [hI.getNum_eq]
      · exact List.nodup_append.mpr ⟨hI.nodup, List.nodup_singleton v,
          fun a ha b hb hab => hnot (by rw [List.mem_singleton.mp hb] at hab; exact hab ▸ ha)⟩
      · intro w hw
        rcases List.mem_append.mp hw with hw | hw
        · exact hI.drawn w hw
        · rw [List.mem_singleton.mp hw]
          exact ⟨hv, hself⟩
      all_goals
        simp only [drawMeasure, hI.setNum_eq]
        omega
    · -- not drawn: `loopTimes` is one step closer to the next multiple of `rnd`
      rw [if_neg hsel] at h
      dsimp only at h
      cases h
      have hstep := succ_mod_of_ne_zero hI.rnd_pos hsel
      have hmod := Nat.mod_lt env.loopTimes hI.rnd_pos
      refine ⟨⟨hI.otaAX_eq, hI.setNum_eq, hI.getNum_eq, hI.getNum_le, hI.nodup, hI.drawn,
        hI.rnd_pos, hI.rnd_le⟩, ?_, fun _ _ => ?_, .inl rfl,
        by simpa [GetOTASetEnv.IsSetFull] using hfull⟩
      all_goals
        simp only [drawMeasure]
        omega

/-! ### One walk -/

/-- A walk over distinct stored values, all well formed, from a set that is not full: no error;
the invariant holds after it; and either the set is full, or every value was visited, the
measure did not go up, and it went down if one of the values could still be drawn. -/
lemma travel_spec (hrand : ∀ k, rand k < 100) (hlen : ∀ v ∈ vals, v.length = WAddressLength)
    (balance : ℕ) :
    ∀ (l : List Bytes) (env : GetOTASetEnv) (cnt : ℕ), l.Nodup → (∀ v ∈ l, v ∈ vals) →
      DrawInv vals otaAX setNum env → env.IsSetFull = false →
      ∀ env' cnt' err', travelOTASet rand balance l env cnt none = (env', cnt', err') →
      err' = none ∧ DrawInv vals otaAX setNum env' ∧
        (env'.IsSetFull = true ∨ (cnt' = cnt + l.length ∧ drawMeasure env' ≤ drawMeasure env ∧
          ((∃ v ∈ l, IsAXPointToWanAddr otaAX v = false ∧ v ∉ env.otaWanAddrSet) →
            drawMeasure env' < drawMeasure env))) := by
  intro l
  induction l with
  | nil =>
    intro env cnt _ _ hI _ env' cnt' err' h
    cases h
    exact ⟨rfl, hI, .inr ⟨rfl, le_rfl, fun ⟨_, hv, _⟩ => absurd hv List.not_mem_nil⟩⟩
  | cons x rest ih =>
    intro env cnt hnd hsub hI hfull env' cnt' err' h
    have hx := hsub x List.mem_cons_self
    have hxr : x ∉ rest := (List.nodup_cons.mp hnd).1
    rw [travelOTASet, if_neg (by rw [hlen x hx]; exact not_not.mpr rfl)] at h
    rcases hcb : doOTAStorageTravelCallBack rand env x with ⟨c, env1⟩
    obtain ⟨hI1, hle1, hlt1, hset1, hc⟩ := callBack_spec hrand hI hfull hx hcb
    dsimp only at h
    rw [hcb] at h
    cases c with
    | false =>
      -- the set filled up at `x`: the walk stops
      cases h
      exact ⟨rfl, hI1, .inl (by simpa using hc)⟩
    | true =>
      have hfull1 : env1.IsSetFull = false := by simpa using hc
      obtain ⟨herr, hI', hend⟩ := ih env1 (cnt + 1) (List.nodup_cons.mp hnd).2
        (fun v hv => hsub v (List.mem_cons_of_mem x hv)) hI1 hfull1 env' cnt' err' h
      refine ⟨herr, hI', hend.imp_right fun ⟨hcnt, hle, hlt⟩ => ⟨by simp [hcnt]; omega,
        hle.trans hle1, fun ⟨v, hv, hself, hnot⟩ => ?_⟩⟩
      rcases List.mem_cons.mp hv with rfl | hv
      · exact lt_of_le_of_lt hle (hlt1 hself hnot)
      · -- `v` comes after `x`, so the visit of `x` did not draw it
        have hnot1 : v ∉ env1.otaWanAddrSet := by
          rcases hset1 with hs | hs
          · rwa [hs]
          · rw [hs, List.mem_append, List.mem_singleton, not_or]
            exact ⟨hnot, fun hvx => hxr (hvx ▸ hv)⟩
        exact lt_of_lt_of_le (hlt ⟨v, hv, hself, hnot1⟩) hle1

/-- While the set is not full, a value that may be drawn is not drawn yet. -/
lemma exists_undrawn {env : GetOTASetEnv} (hI : DrawInv vals otaAX setNum env)
    (hfull : env.IsSetFull = false) (hvals : vals.Nodup)
    (helig : setNum ≤ (vals.filter fun v => !IsAXPointToWanAddr otaAX v).length) :
    ∃ v ∈ vals, IsAXPointToWanAddr otaAX v = false ∧ v ∉ env.otaWanAddrSet := by
  by_contra hall
  push Not at hall
  have hsub : (vals.filter fun v => !IsAXPointToWanAddr otaAX v) ⊆ env.otaWanAddrSet := by
    intro v hv
    rw [List.mem_filter, Bool.not_eq_true'] at hv
    exact hall v hv.1 hv.2
  have hle := (hvals.filter _).length_le_of_subset hsub
  have hlt : env.getNum < setNum := by
    simpa [GetOTASetEnv.IsSetFull, hI.setNum_eq] using hfull
  rw [hI.getNum_eq] at hlt
  omega

/-- The loop ends within its fuel when the fuel is above the measure: each walk that leaves the
set short visits a value not drawn yet, and the checks between walks pass, since every walk
visits more values than `setNum`. -/
lemma getOTASetLoop_ok (hrand : ∀ k, rand k < 100) (order : ℕ → List Bytes → List Bytes)
    (horder : ∀ k l, (order k l).Perm l) (hvals : vals.Nodup)
    (hlen : ∀ v ∈ vals, v.length = WAddressLength) (hmore : setNum < vals.length)
    (helig : setNum ≤ (vals.filter fun v => !IsAXPointToWanAddr otaAX v).length) (balance : ℕ) :
    ∀ fuel pass env cnt, DrawInv vals otaAX setNum env → env.IsSetFull = false →
      drawMeasure env < fuel →
      ∃ set, getOTASetLoop rand order vals setNum balance fuel pass env cnt =
          some ⟨some set, some balance, none⟩ ∧
        set.length = setNum ∧ set.Nodup ∧
        ∀ v ∈ set, v ∈ vals ∧ IsAXPointToWanAddr otaAX v = false := by
  intro fuel
  induction fuel with
  | zero => intro _ _ _ _ _ h; omega
  | succ fuel ih =>
    intro pass env cnt hI hfull hμ
    have hperm := horder pass vals
    rcases htr : travelOTASet rand balance (order pass vals) env cnt none with ⟨env', cnt', err'⟩
    obtain ⟨rfl, hI', hend⟩ := travel_spec hrand hlen balance (order pass vals) env cnt
      (hperm.nodup_iff.mpr hvals) (fun v hv => hperm.subset hv) hI hfull env' cnt' err' htr
    rw [getOTASetLoop, htr]
    dsimp only
    by_cases hfull' : env'.IsSetFull = true
    · -- the set is full: it is returned
      rw [if_pos hfull']
      refine ⟨_, rfl, ?_, hI'.nodup, hI'.drawn⟩
      have hge : setNum ≤ env'.getNum := by
        simpa [GetOTASetEnv.IsSetFull, hI'.setNum_eq] using hfull'
      have := hI'.getNum_le
      rw [← hI'.getNum_eq]
      omega
    · rw [if_neg hfull']
      obtain ⟨hcnt, -, hlt⟩ := hend.resolve_left hfull'
      rw [hperm.length_eq] at hcnt
      rw [if_neg (by omega), if_neg (by omega)]
      obtain ⟨v, hv, hself, hnot⟩ := exists_undrawn hI hfull hvals helig
      have hμ' := hlt ⟨v, hperm.symm.subset hv, hself, hnot⟩
      exact ih (pass + 1) env' cnt' hI' (by simpa using hfull') (by omega)

end Visit

/-! ### The storage of a balance -/

/-- The entries of the storage at `mptAddr` are as `setOTA` stores them: a `WanAddr` under its
own `AX`. -/
def StoredBySetOTA (st : OtaStorage) (mptAddr : Address) : Prop :=
  ∀ e ∈ st.sets.entries, e.1.1 = mptAddr →
    e.2.length = WAddressLength ∧ e.1.2 = (e.2.drop 1).take HashLength

section Storage

variable {st : OtaStorage} {mptAddr : Address}

lemma mem_mptValues (hwf : StoredBySetOTA st mptAddr) {v : Bytes} :
    v ∈ mptValues st mptAddr ↔ ((mptAddr, (v.drop 1).take HashLength), v) ∈ st.sets.entries := by
  constructor
  · intro hv
    obtain ⟨e, he, rfl⟩ := List.mem_map.mp hv
    obtain ⟨he, hkey⟩ := List.mem_filter.mp he
    have hkey : e.1.1 = mptAddr := by simpa using hkey
    rw [← hkey, ← (hwf e he hkey).2]
    exact he
  · intro hv
    exact List.mem_map.mpr ⟨_, List.mem_filter.mpr ⟨hv, by simp⟩, rfl⟩

/-- A value determines its key, so the values of a storage are distinct. -/
lemma mptValues_nodup (hwf : StoredBySetOTA st mptAddr) : (mptValues st mptAddr).Nodup := by
  have hkeys : ((st.sets.entries.filter (·.1.1 = mptAddr)).map Prod.fst).Nodup :=
    st.sets.nodup.sublist (List.filter_sublist)
  refine List.Nodup.map_on (fun e he e' he' hv => ?_) (List.Nodup.of_map _ hkeys)
  obtain ⟨he, hk⟩ := List.mem_filter.mp he
  obtain ⟨he', hk'⟩ := List.mem_filter.mp he'
  have hk : e.1.1 = mptAddr := by simpa using hk
  have hk' : e'.1.1 = mptAddr := by simpa using hk'
  -- both keys are the address and the `AX` of the common value
  have hkey : e.1 = e'.1 := Prod.ext (hk.trans hk'.symm)
    ((hwf e he hk).2.trans (hv ▸ (hwf e' he' hk').2.symm))
  exact List.inj_on_of_nodup_map st.sets.nodup he he' hkey

/-- At most one value of the storage is the one of `otaAX`: it sits under `otaAX`. -/
lemma length_filter_self_le (hwf : StoredBySetOTA st mptAddr) (otaAX : Bytes) :
    ((mptValues st mptAddr).filter fun v => IsAXPointToWanAddr otaAX v).length ≤ 1 := by
  have hone : ∀ v ∈ (mptValues st mptAddr).filter (fun v => IsAXPointToWanAddr otaAX v),
      ∀ w ∈ (mptValues st mptAddr).filter (fun v => IsAXPointToWanAddr otaAX v), v = w := by
    intro v hv w hw
    obtain ⟨hv, hvs⟩ := List.mem_filter.mp hv
    obtain ⟨hw, hws⟩ := List.mem_filter.mp hw
    have hev := (mem_mptValues hwf).mp hv
    have hew := (mem_mptValues hwf).mp hw
    have hlv := (hwf _ hev rfl).1
    have hlw := (hwf _ hew rfl).1
    -- the `AX` of each is `otaAX`
    have haxv : (v.drop 1).take HashLength = otaAX := by
      simpa [IsAXPointToWanAddr, GetAXFromWanAddr, hlv] using hvs
    have haxw : (w.drop 1).take HashLength = otaAX := by
      simpa [IsAXPointToWanAddr, GetAXFromWanAddr, hlw] using hws
    have heq := List.inj_on_of_nodup_map st.sets.nodup hev hew
      (show (mptAddr, (v.drop 1).take HashLength) = (mptAddr, (w.drop 1).take HashLength) by
        rw [haxv, haxw])
    exact congrArg Prod.snd heq
  rcases hl : (mptValues st mptAddr).filter (fun v => IsAXPointToWanAddr otaAX v) with
    _ | ⟨a, _ | ⟨b, t⟩⟩
  · simp
  · simp
  · have hnd := (mptValues_nodup hwf).filter (fun v => IsAXPointToWanAddr otaAX v)
    rw [hl] at hnd hone
    have hab := hone a List.mem_cons_self b (by simp)
    subst hab
    exact absurd List.mem_cons_self (List.nodup_cons.mp hnd).1

end Storage

/-! ### The draw ends -/

/-- With the balance of `otaAX` not zero and more values than `setNum` stored by `setOTA` under
it, `GetOTASet` ends within `101 * (setNum + 1)` walks, whatever the orders of the walks and
the draws, with `setNum` distinct values stored under that balance, none of them `otaAX`'s. -/
theorem GetOTASet_draws (rand : ℕ → ℕ) (hrand : ∀ k, rand k < 100)
    (order : ℕ → List Bytes → List Bytes) (horder : ∀ k l, (order k l).Perm l)
    (st : OtaStorage) (otaAX : Bytes) {b : ℕ} (hb : GetOtaBalanceFromAX st otaAX = .ok b)
    (hb0 : b ≠ 0) (hwf : StoredBySetOTA st (OTABalance2ContractAddr b)) (setNum : ℕ)
    (hset : 1 ≤ setNum) (hmore : setNum < (mptValues st (OTABalance2ContractAddr b)).length)
    (fuel : ℕ) (hfuel : 101 * (setNum + 1) ≤ fuel) :
    ∃ set, GetOTASet rand order fuel st otaAX setNum = some ⟨some set, some b, none⟩ ∧
      set.length = setNum ∧ set.Nodup ∧
      ∀ v ∈ set, (v.drop 1).take HashLength ≠ otaAX ∧
        ((OTABalance2ContractAddr b, (v.drop 1).take HashLength), v) ∈ st.sets.entries := by
  have hlen : ∀ v ∈ mptValues st (OTABalance2ContractAddr b), v.length = WAddressLength :=
    fun v hv => (hwf _ ((mem_mptValues hwf).mp hv) rfl).1
  -- all values but at most one may be drawn
  have helig : setNum ≤ ((mptValues st (OTABalance2ContractAddr b)).filter
      fun v => !IsAXPointToWanAddr otaAX v).length := by
    have hsplit := List.length_eq_length_filter_add (l := mptValues st (OTABalance2ContractAddr b))
      (fun v => IsAXPointToWanAddr otaAX v)
    have hself := length_filter_self_le hwf otaAX
    omega
  -- the env after the first draw of `rnd`
  have hr0 := hrand 0
  have hI0 : DrawInv (mptValues st (OTABalance2ContractAddr b)) otaAX setNum
      (GetOTASetEnv.UpdateRnd rand ⟨otaAX, setNum, 0, 0, 0, [], 0⟩) :=
    ⟨rfl, rfl, rfl, Nat.zero_le _, List.nodup_nil, fun _ h => absurd h List.not_mem_nil,
      by simp [GetOTASetEnv.UpdateRnd], by simp only [GetOTASetEnv.UpdateRnd]; omega⟩
  have hfull0 : (GetOTASetEnv.UpdateRnd rand ⟨otaAX, setNum, 0, 0, 0, [], 0⟩).IsSetFull = false := by
    simp [GetOTASetEnv.UpdateRnd, GetOTASetEnv.IsSetFull]
    omega
  have hμ0 : drawMeasure (GetOTASetEnv.UpdateRnd rand ⟨otaAX, setNum, 0, 0, 0, [], 0⟩) < fuel := by
    simp only [drawMeasure, GetOTASetEnv.UpdateRnd, Nat.zero_mod]
    omega
  obtain ⟨set, hloop, hcard, hnd, hdrawn⟩ := getOTASetLoop_ok hrand order horder
    (mptValues_nodup hwf) hlen hmore helig b fuel 0 _ 0 hI0 hfull0 hμ0
  have hax : otaAX.length = HashLength := (GetOtaBalanceFromAX_ok hb).1
  refine ⟨set, ?_, hcard, hnd, fun v hv => ?_⟩
  · rw [GetOTASet, if_neg (by omega), hb]
    dsimp only
    rw [if_neg hb0]
    exact hloop
  · obtain ⟨hvv, hself⟩ := hdrawn v hv
    refine ⟨fun h => ?_, (mem_mptValues hwf).mp hvv⟩
    simp [IsAXPointToWanAddr, GetAXFromWanAddr, hlen v hvv, ← h] at hself

/-- A `WanAddr` of 66 bytes, all `i`, whose `AX` is 32 bytes `i`. -/
def mixAddr (i : UInt8) : Bytes := List.replicate 66 i

/-- Four OTAs of balance 1, the first of them `otaAX`'s. -/
def mixStore : OtaStorage where
  balances := ⟨[(List.replicate 32 1, [1])], by unfold KeyedList.NodupKeys; decide⟩
  sets := ⟨[1, 2, 3, 4].map fun i => ((OTABalance2ContractAddr 1, List.replicate 32 i), mixAddr i),
    by unfold KeyedList.NodupKeys; decide⟩
  images := Storage.empty

/-- Two mixes drawn with `rnd = 3` always, walk `k` rotating the values by `k`: three values
can be drawn, so the first walk draws one, the second none, and the third the other; two walks
are not enough. -/
theorem GetOTASet_draws_mixStore :
    (∀ k, (fun _ => 2 : ℕ → ℕ) k < 100) ∧ (∀ (k : ℕ) (l : List Bytes), (l.rotate k).Perm l) ∧
    GetOtaBalanceFromAX mixStore (List.replicate 32 1) = .ok 1 ∧ 1 ≠ 0 ∧
    StoredBySetOTA mixStore (OTABalance2ContractAddr 1) ∧ 1 ≤ 2 ∧
    2 < (mptValues mixStore (OTABalance2ContractAddr 1)).length ∧ 101 * (2 + 1) ≤ 303 ∧
    GetOTASet (fun _ => 2) (fun k l => l.rotate k) 2 mixStore (List.replicate 32 1) 2 = none ∧
    GetOTASet (fun _ => 2) (fun k l => l.rotate k) 303 mixStore (List.replicate 32 1) 2 =
      some ⟨some [mixAddr 4, mixAddr 3], some 1, none⟩ ∧
    ∃ set, GetOTASet (fun _ => 2) (fun k l => l.rotate k) 303 mixStore (List.replicate 32 1) 2 =
        some ⟨some set, some 1, none⟩ ∧
      set.length = 2 ∧ set.Nodup ∧
      ∀ v ∈ set, (v.drop 1).take HashLength ≠ List.replicate 32 1 ∧
        ((OTABalance2ContractAddr 1, (v.drop 1).take HashLength), v) ∈ mixStore.sets.entries := by
  have hb : GetOtaBalanceFromAX mixStore (List.replicate 32 1) = .ok 1 := rfl
  have hwf : StoredBySetOTA mixStore (OTABalance2ContractAddr 1) := by
    unfold StoredBySetOTA
    decide
  have hmore : 2 < (mptValues mixStore (OTABalance2ContractAddr 1)).length := by decide
  have hrot : ∀ (k : ℕ) (l : List Bytes), (l.rotate k).Perm l := fun k l => List.rotate_perm l k
  exact ⟨fun _ => by simp, hrot, hb, by decide, hwf, by decide, hmore, le_rfl, by decide +kernel,
    by decide +kernel, GetOTASet_draws (fun _ => 2) (fun _ => by simp) (fun k l => l.rotate k) hrot
      mixStore _ hb (by decide) hwf 2 (by decide) hmore 303 le_rfl⟩

end Wanchain.Privacy

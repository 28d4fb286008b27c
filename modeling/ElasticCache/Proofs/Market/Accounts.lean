import ElasticCache.Proofs.Market.Conservation

/-!
# The accounts of a market

A market is read through its accounts by uid: who is registered or removed, who reports a sample or
a size, and what a round does with everyone. The sum of an amount over all accounts depends on
nothing else.
-/

namespace ElasticCache

namespace Market

variable {market market' : Market} {amount : Account → Nat}

/-- The amounts of all accounts by uid. -/
def amounts (market : Market) (amount : Account → Nat) : List (Nat × Nat) :=
  market.accounts.toList.map fun (uid, account) => (uid, amount account)

/-- A market in which nobody has an amount that it did not have has no greater sum. -/
theorem total_le_of_forall (hle : ∀ uid account', market'.account? uid = some account' →
      ∃ account, market.account? uid = some account ∧ amount account = amount account') :
    market'.total amount ≤ market.total amount := by
  have hnodup : (market'.amounts amount).Nodup := by
    refine List.pairwise_map.2 (market'.accounts.distinct_keys_toList.imp fun hne heq => hne ?_)
    rw [(Prod.mk.inj heq).1]
    exact Std.ReflCmp.compare_self
  have hsubset : market'.amounts amount ⊆ market.amounts amount := by
    rintro ⟨uid, n⟩ hmem
    rw [amounts, ← map_account?_eq_some_iff, Option.map_eq_some_iff] at hmem ⊢
    obtain ⟨account', hfind', rfl⟩ := hmem
    exact hle uid account' hfind'
  obtain ⟨part, hperm, hsublist⟩ := List.subperm_of_subset hnodup hsubset
  have hsum := (hsublist.map Prod.snd).sum_le_sum fun _ _ => Nat.zero_le _
  rw [(hperm.map Prod.snd).sum_nat] at hsum
  simpa only [total, amounts, List.map_map, Function.comp_def] using hsum

/-- Sums are equal when everyone has the same amount in two markets. -/
theorem total_congr (hsame : ∀ uid, (market'.account? uid).map amount =
      (market.account? uid).map amount) : market'.total amount = market.total amount := by
  apply Nat.le_antisymm
  · apply total_le_of_forall
    intro uid account' hfind
    have heq := hsame uid
    rw [hfind, Option.map_some] at heq
    obtain ⟨account, hfind', hamount⟩ := Option.map_eq_some_iff.1 heq.symm
    exact ⟨account, hfind', hamount⟩
  · apply total_le_of_forall
    intro uid account hfind
    have heq := hsame uid
    rw [hfind, Option.map_some] at heq
    obtain ⟨account', hfind', hamount⟩ := Option.map_eq_some_iff.1 heq
    exact ⟨account', hfind', hamount⟩

/-- Nobody has more than the sum. -/
theorem le_total {uid : Nat} {account : Account} (hfind : market.account? uid = some account)
    (amount : Account → Nat) : amount account ≤ market.total amount := by
  have hmem : (uid, account) ∈ market.accounts.toList :=
    Std.TreeMap.mem_toList_iff_getElem?_eq_some.2 hfind
  exact List.le_sum_of_mem (List.mem_map.2 ⟨_, hmem, rfl⟩)

/-- Whoever leaves takes its amount out of the sum. -/
theorem total_remove_le (market : Market) (uid : Nat) :
    (market.remove uid).total amount ≤ market.total amount := by
  apply total_le_of_forall
  intro other account hfind
  refine ⟨account, ?_, rfl⟩
  simp only [account?, remove, Std.TreeMap.getElem?_erase] at hfind ⊢
  split at hfind
  · cases hfind
  · exact hfind

/-- Whoever joins, or has its account replaced, adds at most its amount to the sum. -/
theorem total_insert_le (market : Market) (uid : Nat) (account : Account) :
    ({ market with accounts := market.accounts.insert uid account } : Market).total amount ≤
      amount account + market.total amount := by
  have hperm : (market.accounts.insert uid account).toList.Perm ((uid, account) ::
      market.accounts.toList.filter fun entry => ¬ uid == entry.1) :=
    Std.TreeMap.toList_insert_perm
  have hrest : ((market.accounts.toList.filter fun entry => ¬ uid == entry.1).map
      fun entry => amount entry.2).sum ≤ market.total amount :=
    (List.filter_sublist.map _).sum_le_sum fun _ _ => Nat.zero_le _
  rw [total_eq_sum hperm, List.map_cons, List.sum_cons]
  exact Nat.add_le_add_left hrest _

/-- A uid is in the market when there is an account for it. -/
theorem mem_accounts_iff {uid : Nat} :
    uid ∈ market.accounts ↔ (market.account? uid).isSome :=
  Std.TreeMap.mem_iff_isSome_getElem?

/-- A usage that is reported is added to the usages of its instance, and no other
account changes. -/
theorem account?_reportUsage (market : Market) (uid usage other : Nat) :
    (market.reportUsage uid usage).account? other =
      if uid = other then (market.account? uid).map fun a => { a with usages := a.usages.add usage }
      else market.account? other := by
  simp only [account?, reportUsage, Std.TreeMap.getElem?_modify, Nat.compare_eq_eq]

/-- A size that is reported becomes the size and the buying size of its instance, and no other
account changes. -/
theorem account?_reportSize (market : Market) (uid size other : Nat) :
    (market.reportSize uid size).account? other =
      if uid = other then (market.account? uid).map fun a => { a with size, buyingSize := size }
      else market.account? other := by
  simp only [account?, reportSize, Std.TreeMap.getElem?_modify, Nat.compare_eq_eq]

/-- A usage sample gives nobody another size. -/
theorem size_account?_reportUsage (market : Market) (uid usage other : Nat) :
    ((market.reportUsage uid usage).account? other).map (·.size) =
      (market.account? other).map (·.size) := by
  rw [account?_reportUsage]
  split
  next heq => rw [heq, Option.map_map]; rfl
  next => rfl

/-- No size changes when usage is reported. -/
theorem exists_account_of_reportUsage {uid usage other : Nat} {account : Account}
    (hfind : (market.reportUsage uid usage).account? other = some account) :
    ∃ before, market.account? other = some before ∧ before.size = account.size := by
  have heq := size_account?_reportUsage market uid usage other
  rw [hfind, Option.map_some] at heq
  exact Option.map_eq_some_iff.1 heq.symm

/-- Who is in the market after a round was there before, with the size that it remembers. -/
theorem exists_account_of_runWith {target : Account → Nat} {report : RoundReport}
    (h : market.runWith target = .ok (report, market')) {uid : Nat} {account : Account}
    (hfind : market'.account? uid = some account) :
    ∃ before, market.account? uid = some before ∧ before.size = account.last := by
  have heq := last_of_runWith h uid
  rw [hfind, Option.map_some] at heq
  exact Option.map_eq_some_iff.1 heq.symm

/-- A round neither adds nor removes instances. -/
theorem mem_accounts_of_runWith {target : Account → Nat} {report : RoundReport}
    (h : market.runWith target = .ok (report, market')) (uid : Nat) :
    uid ∈ market'.accounts ↔ uid ∈ market.accounts := by
  have hsame := congrArg Option.isSome (last_of_runWith h uid)
  rw [Option.isSome_map, Option.isSome_map] at hsame
  rw [mem_accounts_iff, mem_accounts_iff, hsame]

/-- Whoever registers gets a new account, and everyone else keeps the old one. -/
theorem account?_register {uid requested usage : Nat}
    (h : market.register uid requested usage = .ok market') :
    ∃ account, Account.new market.config.historySize requested usage = .ok account ∧
      market'.config = market.config ∧
      ∀ other,
        market'.account? other = if uid = other then some account else market.account? other := by
  obtain ⟨account, hnew, h⟩ := bind_eq_ok_iff.1 h
  obtain rfl := Except.ok.inj h
  refine ⟨account, hnew, rfl, fun other => ?_⟩
  simp only [account?, Std.TreeMap.getElem?_insert, Nat.compare_eq_eq]

/-- An instance that is removed has no account, and the others keep theirs. -/
theorem account?_remove (market : Market) (uid other : Nat) :
    (market.remove uid).account? other = if uid = other then none else market.account? other := by
  simp only [account?, remove, Std.TreeMap.getElem?_erase, Nat.compare_eq_eq]

/-- Many instances that are removed have no account, and the others keep theirs. -/
theorem account?_foldl_remove (uids : List Nat) (market : Market) (uid : Nat) :
    (uids.foldl remove market).account? uid =
      if uid ∈ uids then none else market.account? uid := by
  induction uids generalizing market with
  | nil => rw [if_neg List.not_mem_nil, List.foldl_nil]
  | cons other rest ih =>
    rw [List.foldl_cons, ih, account?_remove]
    simp only [List.mem_cons, eq_comm (a := uid)]
    split <;> simp_all

/-- Removing instances keeps the configuration. -/
theorem config_foldl_remove (uids : List Nat) (market : Market) :
    (uids.foldl remove market).config = market.config := by
  induction uids generalizing market with
  | nil => rfl
  | cons uid rest ih => exact ih (market.remove uid)

end Market

/-- An account starts without credit. -/
theorem Account.wallet_of_new {historySize requested usage : Nat} {account : Account}
    (h : Account.new historySize requested usage = .ok account) : account.wallet = 0 := by
  obtain ⟨history, _, h⟩ := bind_eq_ok_iff.1 h
  rw [← Except.ok.inj h]

/-- An account starts with the usage it is given as its allocation. -/
theorem Account.size_of_new {historySize requested usage : Nat} {account : Account}
    (h : Account.new historySize requested usage = .ok account) :
    account.size = usage ∧ account.last = usage := by
  obtain ⟨history, _, h⟩ := bind_eq_ok_iff.1 h
  rw [← Except.ok.inj h]
  exact ⟨rfl, rfl⟩

end ElasticCache

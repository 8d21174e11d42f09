import Mathlib
import PipeScript.Proofs.Command.NotFound
import PipeScript.Proofs.Numeral

/-!
# Price reports from the cache

A price report that is in the cache answers each query with its key, without a request. It should be one that
the request of the query would have fetched, so requests with one key should ask for the same. They do but
for one case: the largest coins are kept under `top:` and their number, and a coin may be asked for by this
very text.

## The model

What is asked is told by the parameters of a request, and under which key the answer is kept by its key;
`Crypto.Request.SharesKey` describes the one case without either of them. `Command.AnswersFirst` says that an
invocation answered with a report that was not in the cache before.

Main results: two requests have one key exactly if they have the same parameters or are the two of that case
(`Crypto.Request.key_eq_iff`); what one invocation has fetched is what each invocation with its key answers
before the report expires, without a request (`Command.AnswersFirst.served`). Both are said of any two
invocations in `Command.same_key_same_parameters_iff`.
-/

namespace PipeScript

/-! ### Keys of requests -/

/-- A text without a comma is joined from nothing but itself. -/
theorem eq_singleton_of_intercalate {parts : List String} {s : String} (h : ",".intercalate parts = s)
    (hne : s ≠ "") (hcomma : ',' ∉ s.toList) : parts = [s] := by
  match parts with
  | [] => exact absurd h.symm hne
  | [part] => rw [← h, String.intercalate_singleton]
  | part :: other :: parts =>
    rw [← h] at hcomma
    simp at hcomma

namespace Crypto.Request

variable {q r : Request} {m n : Int} {ids : List String}

/-- Does the first request ask for the largest coins, and the second one for the coin that is called like
its key? -/
def SharesKey (q r : Request) : Prop := ∃ n : Int, q = .top n ∧ r = .coins ["top:" ++ toString n]

theorem key_top (n : Int) : (top n).key = "top:" ++ toString n := rfl

theorem comma_not_mem_key_top (n : Int) : ',' ∉ (top n).key.toList := by
  rw [key_top, String.toList_append, List.mem_append, not_or]
  exact ⟨by decide, (Numeral.isPrinted_toString_int n).not_mem (by decide)⟩

theorem key_top_inj : (top m).key = (top n).key ↔ m = n := by
  rw [key_top, key_top, String.append_right_inj, Int.toString_eq_repr, Int.toString_eq_repr, Int.repr_inj]

/-- The coins with the key of the largest ones are one coin. -/
theorem key_coins_eq_key_top : (coins ids).key = (top n).key ↔ ids = [(top n).key] := by
  constructor
  · intro h
    refine eq_singleton_of_intercalate h ?_ (comma_not_mem_key_top n)
    simp [key_top]
  · rintro rfl
    simp [key]

theorem parameters_top_inj : (top m).parameters = (top n).parameters ↔ m = n := by
  simp [parameters]

theorem parameters_coins_inj {others : List String} :
    (coins ids).parameters = (coins others).parameters ↔ (coins ids).key = (coins others).key := by
  simp [parameters, key]

theorem parameters_top_ne_coins : (top n).parameters ≠ (coins ids).parameters := by
  simp [parameters]

/-- **Requests have one key** exactly if they have the same parameters, or one is for the largest coins and
the other for the coin that is called like the key of these. -/
theorem key_eq_iff : q.key = r.key ↔ q.parameters = r.parameters ∨ q.SharesKey r ∨ r.SharesKey q := by
  cases q with
  | top m =>
    cases r with
    | top n => simp [key_top_inj, parameters_top_inj, SharesKey]
    | coins ids =>
      rw [eq_comm, key_coins_eq_key_top]
      simp [parameters_top_ne_coins, SharesKey, key_top]
  | coins ids =>
    cases r with
    | top n =>
      rw [key_coins_eq_key_top]
      simp [parameters_top_ne_coins.symm, SharesKey, key_top]
    | coins others => simp [parameters_coins_inj, SharesKey]

end Crypto.Request

/-! ### Price reports -/

namespace Command

open Surroundings Crypto

variable {argument second input argument' second' input' : String} {q r : Request} {report : String}
  {s s' : Surroundings}

/-- One request is made for a report, whatever becomes of it. -/
theorem snd_getPrices (query : String) (q : Request) (s : Surroundings) :
    ((getPrices query q).on s).2 = s.asked .markets q.parameters := by
  rw [getPrices, Work.on_bind, on_fetch]
  cases dataOf Service.markets.url (s.nextReply .markets) with
  | error f => rfl
  | ok v =>
    simp only [Work.on_bind, Work.check, Work.on_of]
    cases rows "coingecko" "CoinMarket" Coin.ofJson v with
    | error f => rfl
    | ok coins => cases coins <;> rfl

/-- Is the report that answers the query fetched, and not found in the cache that is there? -/
structure AnswersFirst (argument second input : String) (q : Request) (report : String)
    (s s' : Surroundings) : Prop where
  cache : ∃ c l, s.cacheNow = some c ∧ Cache.Keepable c "crypto" q.key l s.disk ∧
    c.held? "crypto" q.key s.disk = none
  clock : s.clock.ReadsBack
  run : (crypto argument second input).on s = (.ok report, s')

/-- What a first answer leaves: one request more, and the report in the cache. -/
theorem AnswersFirst.exists_left (h : AnswersFirst argument second input q report s s')
    (hq : request (query argument input) = .ok q) :
    ∃ c l, s.cacheNow = some c ∧ Cache.Keepable c "crypto" q.key l s.disk ∧
      s' = (({ s with disk := s.disk.erase (l ++ [CacheEntry.fileName "crypto" q.key]) }).asked .markets
        q.parameters).withEntry ⟨report, "crypto", q.key, s.clock, pricesLifetime⟩ l := by
  obtain ⟨c, l, hc, hkeep, hnone⟩ := h.cache
  have hclock : c.now = s.clock := by
    obtain ⟨dir, -, rfl⟩ := Option.map_eq_some_iff.mp hc
    rfl
  refine ⟨c, l, hc, hkeep, ?_⟩
  have hrun := h.run
  have hleft := snd_getPrices (query argument input) q
    { s with disk := s.disk.erase (l ++ [CacheEntry.fileName "crypto" q.key]) }
  rw [on_crypto_of_request hq] at hrun
  cases hfetch : (getPrices (query argument input) q).on
      { s with disk := s.disk.erase (l ++ [CacheEntry.fileName "crypto" q.key]) } with
  | mk r s₁ =>
    rw [hfetch] at hleft
    obtain rfl : s₁ = _ := hleft
    cases r with
    | error f =>
      rw [on_cached_of_error (misses_of_held? hc hkeep hnone) hfetch] at hrun
      cases hrun
    | ok v =>
      rw [on_cached_of_ok hc hkeep hnone pricesLifetime hfetch rfl, hclock] at hrun
      obtain ⟨hv, hs⟩ := Prod.mk.inj hrun
      rw [← hs, Except.ok.inj hv]

/-- **A report that has been fetched** answers each query with its key, without a request, as long as it has
not expired. -/
theorem AnswersFirst.served (h : AnswersFirst argument second input q report s s')
    (hq : request (query argument input) = .ok q) (hr : request (query argument' input') = .ok r)
    (hkey : q.key = r.key) (second' : String) {t : Binary64}
    (ht : CacheEntry.exceeds (t - s.clock) pricesLifetime = false) :
    (crypto argument' second' input').on { s' with clock := t } = (.ok report, { s' with clock := t }) := by
  obtain ⟨c, l, hc, hkeep, hleft⟩ := h.exists_left hq
  obtain ⟨dir, hdir, rfl⟩ := Option.map_eq_some_iff.mp hc
  have hlife : CacheEntry.ReadableLifetime pricesLifetime := by
    unfold CacheEntry.ReadableLifetime
    decide
  have hdisk : s'.disk = _ := congrArg Surroundings.disk hleft
  have hlookup : ((Cache.mk dir t).lookup "crypto" q.key).on s'.disk = (.ok (some report), s'.disk) := by
    rw [hdisk]
    exact hkeep.erase.1.on_lookup_stored h.clock hlife ht
  have hcache : ({ s' with clock := t } : Surroundings).cacheNow = some ⟨dir, t⟩ := by
    rw [cacheNow, hleft]
    exact congrArg (Option.map _) hdir
  rw [on_crypto_of_request hr, ← hkey]
  exact on_cached_of_lookup hcache hlookup _ _

/-- **Two invocations** use one key exactly if they make the same request, or one asks for the largest coins
and the other for the coin that is called like the key of these. Whichever of the two it is, what the first
one has fetched with its request is what the second one answers without a request. -/
theorem same_key_same_parameters_iff (hq : request (query argument input) = .ok q)
    (hr : request (query argument' input') = .ok r) :
    (q.key = r.key ↔ q.parameters = r.parameters ∨ q.SharesKey r ∨ r.SharesKey q) ∧
    (q.key = r.key → ∀ second second' report s s' t, AnswersFirst argument second input q report s s' →
      CacheEntry.exceeds (t - s.clock) pricesLifetime = false →
      s'.dataRequests = s.dataRequests ++ [⟨.markets, q.parameters, s.settings.httpTimeout⟩] ∧
      (crypto argument' second' input').on { s' with clock := t } = (.ok report, { s' with clock := t })) := by
  refine ⟨Request.key_eq_iff, ?_⟩
  intro hkey second second' report s s' t h ht
  refine ⟨?_, h.served hq hr hkey second' ht⟩
  obtain ⟨c, l, -, -, rfl⟩ := h.exists_left hq
  rfl

/-! ### Runs -/

/-- Surroundings with an empty cache, and a market that answers each request with one coin at a price. -/
def market (price : Binary64) : Surroundings where
  settings := { cacheDirectory := Cache.here }
  cache := some Cache.here
  clock := .finite false 0
  replies _ := [.answer 200 "OK" (.value (.array [.object [("id", .string "bitcoin"),
    ("symbol", .string "btc"), ("name", .string "Bitcoin"), ("current_price", .number price)]]))]

/-- The coin of the market. -/
def marketCoin (price : Binary64) : Coin :=
  ⟨"bitcoin", "BTC", "Bitcoin", price, none, none, none, none, none⟩

/-- The first answer of the market. -/
theorem exists_answersFirst_market (price : Binary64) (second : String)
    (hq : request (query argument input) = .ok q) :
    ∃ s', AnswersFirst argument second input q (Crypto.report [marketCoin price]) (market price) s' := by
  have hkeep : Cache.Keepable ⟨Cache.here, .finite false 0⟩ "crypto" q.key [] (market price).disk :=
    Cache.keepable_empty (by decide) q.key
  have hnone := Cache.held?_empty (show (CacheEntry.safeSpace "crypto").length ≤ 25 by decide) q.key
  have hfetch (s : Surroundings) (hs : s.nextReply .markets = (market price).nextReply .markets) :
      (getPrices (query argument input) q).on s =
        (.ok (Crypto.report [marketCoin price]), s.asked .markets q.parameters) := by
    rw [getPrices, Work.on_bind, on_fetch, hs]
    rfl
  have hrun := on_cached_of_ok rfl hkeep hnone pricesLifetime (hfetch _ rfl) rfl
  rw [← on_crypto_of_request hq second] at hrun
  exact ⟨_, ⟨_, [], rfl, hkeep, hnone⟩, Cache.readsBack_zero, hrun⟩

/-- Two coins, asked for by their symbols and, half a minute later, by their identifiers. -/
theorem prices_by_symbol_and_identifier :
    request (query "BTC,eth" "") = .ok (.coins ["bitcoin", "ethereum"]) ∧
    request (query "" " Bitcoin ethereum\n") = .ok (.coins ["bitcoin", "ethereum"]) ∧
    ∃ s', AnswersFirst "BTC,eth" "" "" (.coins ["bitcoin", "ethereum"]) (Crypto.report [marketCoin 2])
        (market 2) s' ∧
      s'.dataRequests = [⟨.markets, Request.parameters (.coins ["bitcoin", "ethereum"]), 15⟩] ∧
      (crypto "" "" " Bitcoin ethereum\n").on { s' with clock := 30 } =
        (.ok (Crypto.report [marketCoin 2]), { s' with clock := 30 }) := by
  have hsymbols : request (query "BTC,eth" "") = .ok (.coins ["bitcoin", "ethereum"]) := by
    decide +kernel
  have hids : request (query "" " Bitcoin ethereum\n") = .ok (.coins ["bitcoin", "ethereum"]) := by
    decide +kernel
  obtain ⟨s', h⟩ := exists_answersFirst_market 2 "" hsymbols
  obtain ⟨hrequests, hserved⟩ := (same_key_same_parameters_iff hsymbols hids).2 rfl _ "" _ _ _ 30 h
    (by decide +kernel)
  exact ⟨hsymbols, hids, s', h, hrequests, hserved⟩

/-- The coin `top:1` is answered with what has been fetched for the largest coin. -/
theorem top_one_shares_key :
    request (query "top 1" "") = .ok (.top 1) ∧ request (query "top:1" "") = .ok (.coins ["top:1"]) ∧
    (Request.top 1).key = (Request.coins ["top:1"]).key ∧
    (Request.top 1).parameters ≠ (Request.coins ["top:1"]).parameters ∧
    ∃ s', (crypto "top 1" "" "").on (market 2) = (.ok (Crypto.report [marketCoin 2]), s') ∧
      (crypto "top:1" "" "").on { s' with clock := 30 } =
        (.ok (Crypto.report [marketCoin 2]), { s' with clock := 30 }) := by
  have htop : request (query "top 1" "") = .ok (.top 1) := by decide +kernel
  have hcoin : request (query "top:1" "") = .ok (.coins ["top:1"]) := by decide +kernel
  obtain ⟨s', h⟩ := exists_answersFirst_market 2 "" htop
  exact ⟨htop, hcoin, by decide, Request.parameters_top_ne_coins, s', h.run,
    h.served htop hcoin (by decide) "" (by decide +kernel)⟩

end Command

end PipeScript

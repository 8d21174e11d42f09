import Mathlib
import PipeScript.Proofs.Command.Prices
import PipeScript.Proofs.Crypto.Queries

/-!
# What the market service is asked

An invocation of the price command looks into the cache first, so that a request is made by some invocations
only. Each request that is made is the one of the query (`Crypto.wellFormed_iff`).

Main results: work through the cache asks for what the fetch asks for, or for nothing
(`Surroundings.dataRequests_cached`); an invocation makes one request at most, and it asks for what it should
unless the query is made up of commas and blanks (`Command.requests_wellFormed_iff`). A lone comma is such a
query (`Command.comma_names_nothing`).
-/

namespace PipeScript

/-! ### Requests through the cache -/

/-- What no continuation changes is what it was before. -/
theorem Work.kept_bind {σ α β γ : Type} (kept : σ → γ) {k : α → Work σ β}
    (hk : ∀ a s, kept ((k a).on s).2 = kept s) (w : Work σ α) (s : σ) :
    kept ((w >>= k).on s).2 = kept (w.on s).2 := by
  rw [Work.on_bind]
  cases w.on s with
  | mk r s' =>
    cases r with
    | error f => rfl
    | ok a => exact hk a s'

namespace Surroundings

variable {space key : String} {lifetime : Nat} {fetch : Errand String} {s : Surroundings}

/-- A text that is made a value is fetched like the text. -/
theorem snd_string (fetch : Errand String) (s : Surroundings) :
    ((Json.string <$> fetch).on s).2 = (fetch.on s).2 := by
  rw [← bind_pure_comp]
  exact Work.kept_bind id (fun _ _ => rfl) fetch s

theorem snd_cached (space key : String) (lifetime : Nat) (fetch : Errand String) (s : Surroundings) :
    ((cached space key lifetime fetch).on s).2 =
      ((Cache.through onDisk s.cacheNow space key (.int lifetime) (Json.string <$> fetch)).on s).2 := by
  have hget : (getThe Surroundings : Errand Surroundings).on s = (.ok s, s) := rfl
  rw [cached, Work.on_bind, hget]
  exact Work.kept_bind id (fun _ _ => rfl) _ s

/-- Without a cache the text is fetched. -/
theorem snd_cached_of_none (h : s.cache = none) :
    ((cached space key lifetime fetch).on s).2 = (fetch.on s).2 := by
  have hnow : s.cacheNow = none := by rw [cacheNow, h, Option.map_none]
  rw [snd_cached, hnow]
  exact snd_string fetch s

theorem dataRequests_onDisk {α : Type} (w : Work Disk α) (s : Surroundings) :
    ((onDisk w).on s).2.dataRequests = s.dataRequests := by
  rw [onDisk, Cache.on_within]

/-- **Work through the cache** asks for nothing, or for what the fetch asks for. -/
theorem dataRequests_cached (space key : String) (lifetime : Nat) (fetch : Errand String)
    (s : Surroundings) :
    ((cached space key lifetime fetch).on s).2.dataRequests = s.dataRequests ∨
    ∃ d, ((cached space key lifetime fetch).on s).2.dataRequests =
      (fetch.on { s with disk := d }).2.dataRequests := by
  cases hcache : s.cacheNow with
  | none =>
    have hnone : s.cache = none := by simpa [cacheNow] using hcache
    exact .inr ⟨s.disk, by rw [snd_cached_of_none hnone]⟩
  | some c =>
    rw [snd_cached, hcache, Cache.through, Work.on_bind, onDisk, Cache.on_within]
    cases (c.lookup space key).on s.disk with
    | mk r d =>
      rcases r with f | ⟨_ | v⟩
      · exact .inl rfl
      · refine .inr ⟨d, ?_⟩
        rw [← snd_string]
        -- The text that has been fetched is stored, and that asks for nothing.
        refine Work.kept_bind dataRequests (fun v s' => ?_) (Json.string <$> fetch) { s with disk := d }
        rw [← dataRequests_onDisk (c.store space key v (.int lifetime)) s']
        exact Work.kept_bind dataRequests (fun _ _ => rfl) _ s'
      · exact .inl rfl

end Surroundings

/-! ### Requests of the price command -/

namespace Command

open Surroundings Crypto Text

variable {argument second input : String} {q : Crypto.Request} {s : Surroundings}

/-- **An invocation** makes no request but the one of its query, and makes it where nothing is cached. -/
theorem dataRequests_crypto (h : request (query argument input) = .ok q) (second : String)
    (s : Surroundings) :
    ∃ made, ((crypto argument second input).on s).2.dataRequests = s.dataRequests ++ made ∧
      (made = [] ∨ made = [⟨.markets, q.parameters, s.settings.httpTimeout⟩]) ∧
      (s.cache = none → made ≠ []) := by
  rw [on_crypto_of_request h]
  generalize hprices : getPrices (query argument input) q = prices
  have hasked (d : Disk) : (prices.on { s with disk := d }).2.dataRequests =
      s.dataRequests ++ [⟨.markets, q.parameters, s.settings.httpTimeout⟩] := by
    rw [← hprices, snd_getPrices]
    rfl
  by_cases hcache : s.cache = none
  · rw [snd_cached_of_none hcache]
    exact ⟨_, hasked s.disk, .inr rfl, fun _ => List.cons_ne_nil _ _⟩
  · rcases dataRequests_cached "crypto" q.key pricesLifetime prices s with hnothing | ⟨d, hfetched⟩
    · exact ⟨[], by rw [hnothing, List.append_nil], .inl rfl, fun hnone => absurd hnone hcache⟩
    · exact ⟨_, hfetched.trans (hasked d), .inr rfl, fun hnone => absurd hnone hcache⟩

theorem dataRequests_crypto_of_error {e : WholeNumber.Problem} (h : request (query argument input) = .error e)
    (second : String) (s : Surroundings) :
    ((crypto argument second input).on s).2.dataRequests = s.dataRequests := by
  rw [crypto, Work.on_bind, Work.check, Work.on_of, h]
  rfl

/-- **An invocation of the price command** makes one request at most, and makes it where nothing is cached and
the number in the query can be read. It asks for a number of the largest coins, from 1 to 100, exactly if the
query is empty or `top`. It asks either for that or for the coins that the query names, and not for both,
exactly if the query is not made up of commas and blanks; if it is, no coins are named. -/
theorem requests_wellFormed_iff (argument second input : String) (s : Surroundings) :
    ∃ made : List DataRequest,
      ((crypto argument second input).on s).2.dataRequests = s.dataRequests ++ made ∧
      made.length ≤ 1 ∧
      (s.cache = none → (∃ q, request (query argument input) = .ok q) → made ≠ []) ∧
      ∀ r ∈ made, r.service = .markets ∧
        (AsksForLargest r.parameters ↔ IsTopQuery (query argument input)) ∧
        (Xor (AsksForLargest r.parameters) (AsksForCoins (query argument input) r.parameters) ↔
          ¬NamesNothing (query argument input)) ∧
        (NamesNothing (query argument input) → r.parameters = (Request.coins []).parameters) := by
  have hstripped := stripped_query argument input
  cases hrequest : request (query argument input) with
  | error e =>
    refine ⟨[], ?_, by simp, ?_, by simp⟩
    · rw [dataRequests_crypto_of_error hrequest, List.append_nil]
    · rintro - ⟨q, hq⟩
      cases hq
  | ok q =>
    obtain ⟨made, hmade, hone, hnone⟩ := dataRequests_crypto hrequest second s
    refine ⟨made, hmade, ?_, fun hcache _ => hnone hcache, ?_⟩
    · rcases hone with rfl | rfl <;> simp
    · intro r hr
      rcases hone with rfl | rfl
      · cases hr
      · obtain rfl := List.mem_singleton.mp hr
        refine ⟨rfl, asksForLargest_iff hstripped hrequest, wellFormed_iff hstripped hrequest, ?_⟩
        intro hnothing
        rw [eq_of_namesNothing hstripped hrequest hnothing]

/-- A lone comma asks neither for the largest coins nor for any others. -/
theorem comma_names_nothing :
    query "," "" = "," ∧ NamesNothing "," ∧
    ((crypto "," "" "").on { market 2 with cache := none }).2.dataRequests =
      [⟨.markets, (Request.coins []).parameters, 15⟩] ∧
    (Request.coins []).parameters.lookup "ids" = some (.string "") ∧
    ¬AsksForLargest (Request.coins []).parameters ∧ ¬AsksForCoins "," (Request.coins []).parameters := by
  have hquery : query "," "" = "," := by decide
  have hrequest : request (query "," "") = .ok (.coins []) := by decide +kernel
  have hcoins : ¬AsksForCoins "," (Request.coins []).parameters := by
    rintro ⟨ids, h⟩
    obtain ⟨words, hwords, rfl⟩ := h.words
    obtain rfl : [] = words := hasWords_iff.mp hwords
    exact h.nonempty rfl
  refine ⟨hquery, by decide, ?_, (lookup_coins []).1, not_asksForLargest_coins, hcoins⟩
  rw [on_crypto_of_request hrequest, snd_cached_of_none rfl, snd_getPrices]
  rfl

end Command

end PipeScript

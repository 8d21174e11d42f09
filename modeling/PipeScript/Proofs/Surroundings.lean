import PipeScript.Proofs.Cache.Fetching

/-!
# Requests and cached texts

What work with the surroundings comes to: a request takes a reply from the store and is recorded, and
nothing else changes (`Surroundings.on_fetch`, `Surroundings.asked`). A text that is wanted under a key comes
from the cache if there is a live entry (`Surroundings.on_cached_of_lookup`). Without one (`Surroundings.Misses`)
it is fetched; a failure to fetch comes out and nothing is stored (`Surroundings.on_cached_of_error`), and a
text that has been fetched is stored (`Surroundings.on_cached_of_ok`).
-/

namespace PipeScript.Surroundings

variable {s s' : Surroundings} {space key v : String} {d : Disk} {c : Cache} {l : Location} {f : Failure}
  {fetch : Errand String}

/-! ### Requests -/

/-- The reply of a service to the next request. -/
def nextReply (s : Surroundings) (service : Service) : Reply :=
  (nextOf (s.replies service)).1.getD s.noReply

/-- The surroundings once a service has been asked. -/
def asked (service : Service) (parameters : List (String × Json)) (s : Surroundings) : Surroundings :=
  { s with
    replies := fun other => if other = service then (nextOf (s.replies service)).2 else s.replies other
    dataRequests := s.dataRequests ++ [⟨service, parameters, s.settings.httpTimeout⟩] }

theorem on_fetch (service : Service) (parameters : List (String × Json)) (s : Surroundings) :
    (Surroundings.fetch service parameters).on s =
      (dataOf service.url (s.nextReply service), s.asked service parameters) := rfl

/-- What the disk holds does not matter to the services. -/
theorem nextReply_disk (d : Disk) (service : Service) :
    ({ s with disk := d } : Surroundings).nextReply service = s.nextReply service := rfl

/-! ### Cached texts -/

theorem on_cached (space key : String) (lifetime : Nat) (fetch : Errand String) (s : Surroundings) :
    (cached space key lifetime fetch).on s =
      match (Cache.through onDisk s.cacheNow space key (.int lifetime) (Json.string <$> fetch)).on s with
      | (.ok v, s') => (.ok v.display, s')
      | (.error f, s') => (.error f, s') := by
  have hget : (getThe Surroundings : Errand Surroundings).on s = (.ok s, s) := rfl
  rw [cached, Work.on_bind, hget]
  simp only [Work.on_bind]
  cases (Cache.through onDisk s.cacheNow space key (.int lifetime) (Json.string <$> fetch)).on s with
  | mk r s' => cases r <;> rfl

/-- **A live entry** is the answer, and nothing else happens. -/
theorem on_cached_of_lookup (hc : s.cacheNow = some c)
    (h : (c.lookup space key).on s.disk = (.ok (some v), s.disk)) (lifetime : Nat) (fetch : Errand String) :
    (cached space key lifetime fetch).on s = (.ok v, s) := by
  have hlookup : (onDisk (c.lookup space key)).on s = (.ok (some v), s) := by
    rw [onDisk, Cache.on_within, h]
  rw [on_cached, hc]
  simp only [Cache.through, Work.on_bind, hlookup]
  rfl

/-- Is there no live entry of the pair, if results are cached, and is this the disk once it has been looked
for? -/
def Misses (s : Surroundings) (space key : String) (d : Disk) : Prop :=
  match s.cacheNow with
  | none => d = s.disk
  | some c => (c.lookup space key).on s.disk = (.ok none, d)

/-- **An entry that is not live** is not found, and its file is gone after the look-up. -/
theorem misses_of_held? (hc : s.cacheNow = some c) (h : Cache.Keepable c space key l s.disk)
    (hheld : c.held? space key s.disk = none) :
    s.Misses space key (s.disk.erase (l ++ [CacheEntry.fileName space key])) := by
  have hlookup := h.on_lookup
  rw [hheld] at hlookup
  rw [Misses, hc]
  exact hlookup

/-- **Without a live entry** a failure to fetch comes out. -/
theorem on_cached_of_error (h : s.Misses space key d)
    (hf : fetch.on { s with disk := d } = (.error f, s')) (lifetime : Nat) :
    (cached space key lifetime fetch).on s = (.error f, s') := by
  have hstring : (Json.string <$> fetch).on { s with disk := d } = (.error f, s') := by
    rw [← bind_pure_comp, Work.on_bind, hf]
  have hthrough : (Cache.through onDisk s.cacheNow space key (.int lifetime) (Json.string <$> fetch)).on s =
      (.error f, s') := by
    unfold Misses at h
    cases hcache : s.cacheNow with
    | none =>
      rw [hcache] at h
      obtain rfl : d = s.disk := h
      exact hstring
    | some c =>
      rw [hcache] at h
      have h : (c.lookup space key).on s.disk = (.ok none, d) := h
      have hlookup : (onDisk (c.lookup space key)).on s = (.ok none, { s with disk := d }) := by
        rw [onDisk, Cache.on_within, h]
      simp only [Cache.through, Work.on_bind, hlookup, hstring]
  rw [on_cached, hthrough]

/-- The surroundings with an entry in the cache. -/
def withEntry (e : CacheEntry) (l : Location) (s : Surroundings) : Surroundings :=
  { s with disk := s.disk.put (l ++ [CacheEntry.fileName e.space e.key]) (.file e.encode) }

/-- **Without a live entry** a text that can be fetched is stored. -/
theorem on_cached_of_ok (hc : s.cacheNow = some c) (h : Cache.Keepable c space key l s.disk)
    (hnone : c.held? space key s.disk = none) (lifetime : Nat)
    (hfetch : fetch.on { s with disk := s.disk.erase (l ++ [CacheEntry.fileName space key]) } = (.ok v, s'))
    (hdisk : s'.disk = s.disk.erase (l ++ [CacheEntry.fileName space key])) :
    (cached space key lifetime fetch).on s =
      (.ok v, s'.withEntry ⟨v, space, key, c.now, lifetime⟩ l) := by
  have hkept : Cache.Keepable c space key l s'.disk := hdisk ▸ h.erase.1
  have hstring : (Json.string <$> fetch).on
      { s with disk := s.disk.erase (l ++ [CacheEntry.fileName space key]) } = (.ok (.string v), s') := by
    rw [← bind_pure_comp, Work.on_bind, hfetch]
    rfl
  have hthrough := Cache.on_through_of_none (fun d (s : Surroundings) => { s with disk := d })
    (Json.string <$> fetch) (.int lifetime) h hnone
  simp only [hstring, hkept.on_store] at hthrough
  have hrun : (Cache.through onDisk s.cacheNow space key (.int lifetime) (Json.string <$> fetch)).on s =
      (.ok (.string v), s'.withEntry ⟨v, space, key, c.now, lifetime⟩ l) := by
    rw [hc]
    exact hthrough
  rw [on_cached, hrun]
  rfl

end PipeScript.Surroundings

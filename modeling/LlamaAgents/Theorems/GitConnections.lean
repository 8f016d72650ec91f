import LlamaAgents.Theorems.GitProxy

/-!
# Where git connections go

The control plane checks the addresses of a host before it connects to it, and its clients look the name up again. While every
lookup gives the same answer, a connection goes to an address that was checked. The invariant ties what is opened, and what the
cache remembers, to what was checked; every request keeps it.
-/

namespace LlamaAgents.GitNetwork

/-- Every address that a lookup of the host of a URL can give has passed the check. -/
def Covers (env : GitEnvironment) (st : GitState) (url : List Char) : Prop :=
  ∀ n ips, env.dns n (hostname url) = some ips → ∀ ip ∈ ips, (hostname url, ip) ∈ st.checked

/-- The invariant of the state: what is checked is not refused, what is opened was checked for the host of its URL, and a repository
that the cache says can be cloned is covered. -/
structure IsGuarded (env : GitEnvironment) (st : GitState) : Prop where
  passed : ∀ c ∈ st.checked, c.2.isRefused = false
  opened : ∀ c ∈ st.opened, (hostname c.1, c.2) ∈ st.checked
  cached : ∀ entry ∈ st.cache, entry.2.1.isAccessible = true → isGithubRepository entry.1.repositoryUrl = false →
    Covers env st entry.1.repositoryUrl

namespace ConnectionsAux

/-- A state after another one: it is guarded, and nothing that was checked is lost. -/
structure Follows (env : GitEnvironment) (st st' : GitState) : Prop where
  guarded : IsGuarded env st'
  grows : st.checked ⊆ st'.checked

variable {env : GitEnvironment} {st st' st'' : GitState} {url : List Char}

theorem Covers.mono (h : Covers env st url) (hgrows : st.checked ⊆ st'.checked) : Covers env st' url :=
  fun n ips hips ip hip => hgrows (h n ips hips ip hip)

theorem Follows.refl (h : IsGuarded env st) : Follows env st st := ⟨h, List.Subset.refl _⟩

theorem Follows.trans (h : Follows env st st') (h' : Follows env st' st'') : Follows env st st'' :=
  ⟨h'.guarded, List.Subset.trans h.grows h'.grows⟩

/-- A step that leaves the cache, checks more and opens what was checked keeps the guard. -/
theorem Follows.of_checked (h : IsGuarded env st) (hcache : st'.cache = st.cache) (hgrows : st.checked ⊆ st'.checked)
    (hpassed : ∀ c ∈ st'.checked, c ∈ st.checked ∨ c.2.isRefused = false)
    (hopened : ∀ c ∈ st'.opened, c ∈ st.opened ∨ (hostname c.1, c.2) ∈ st'.checked) : Follows env st st' := by
  refine ⟨⟨fun c hc => ?_, fun c hc => ?_, fun entry he haccess hgithub => ?_⟩, hgrows⟩
  · rcases hpassed c hc with hc | hc
    · exact h.passed c hc
    · exact hc
  · rcases hopened c hc with hc | hc
    · exact hgrows (h.opened c hc)
    · exact hc
  · rw [hcache] at he
    exact Covers.mono (h.cached entry he haccess hgithub) hgrows

section Stable

variable (hdns : ∀ n m host, env.dns n host = env.dns m host) (hredirects : ∀ n, env.redirects n = [])

include hdns in
/-- A check that passes covers the host, when the name is always answered alike. -/
theorem checkHostnameNotPrivate_follows {r : Except String Unit} (h : IsGuarded env st)
    (heq : checkHostnameNotPrivate env (hostname url) st = (r, st')) : Follows env st st' ∧ (r = .ok () → Covers env st' url) := by
  unfold checkHostnameNotPrivate at heq
  split at heq
  · cases heq
    exact ⟨Follows.of_checked h rfl (List.Subset.refl _) (fun c hc => .inl hc) fun c hc => .inl hc, fun hr => by cases hr⟩
  · case h_2 ips hips =>
    obtain ⟨rfl, rfl⟩ := Prod.mk.inj heq
    refine ⟨Follows.of_checked h rfl (List.subset_append_left _ _) (fun c hc => ?_) fun c hc => .inl hc, fun hr n ips' hips' ip hip => ?_⟩
    · rcases List.mem_append.1 hc with hc | hc
      · exact .inl hc
      · obtain ⟨ip, hip, rfl⟩ := List.mem_map.1 hc
        exact .inr (by simpa using List.mem_takeWhile_imp (p := fun ip : IpAddress => !ip.isRefused) hip)
    · have hnone : ¬ips.any (·.isRefused) = true := by
        intro hany
        rw [if_pos hany] at hr
        cases hr
      have hkeep : ∀ ip ∈ ips, (!ip.isRefused) = true := by simpa using hnone
      obtain rfl : ips = ips' := Option.some.inj (hips.symm.trans ((hdns _ _ _).trans hips'))
      refine List.mem_append_right _ (List.mem_map.2 ⟨ip, ?_, rfl⟩)
      rw [List.takeWhile_eq_self_iff.2 hkeep]
      exact hip

include hdns in
theorem validateGitUrlNoSsrf_follows {r : Except String Unit} (h : IsGuarded env st)
    (heq : validateGitUrlNoSsrf env url st = (r, st')) : Follows env st st' ∧ (r = .ok () → Covers env st' url) := by
  unfold validateGitUrlNoSsrf at heq
  split at heq
  · cases heq
    exact ⟨Follows.refl h, fun hr => by cases hr⟩
  · split at heq
    · cases heq
      exact ⟨Follows.refl h, fun hr => by cases hr⟩
    · exact checkHostnameNotPrivate_follows hdns h heq

/-- A connection to the host of a covered URL. -/
theorem connect_follows (h : IsGuarded env st) (hcovers : Covers env st url) : Follows env st (connect env url (hostname url) st) := by
  refine Follows.of_checked h rfl (List.Subset.refl _) (fun c hc => .inl hc) fun c hc => ?_
  rcases List.mem_append.1 hc with hc | hc
  · exact .inl hc
  · obtain ⟨ip, hip, rfl⟩ := List.mem_map.1 hc
    cases hips : env.dns st.lookups (hostname url) with
    | none => simp [hips] at hip
    | some ips =>
      rw [hips] at hip
      exact .inr (hcovers _ ips hips ip (List.mem_of_mem_take hip))

include hredirects in
theorem gitFetch_follows (h : IsGuarded env st) (hcovers : Covers env st url) : Follows env st (gitFetch env url st).2 := by
  unfold gitFetch
  rw [hredirects]
  exact connect_follows h hcovers

include hdns hredirects in
theorem validateGitAccess_follows {r : Except String Bool} (h : IsGuarded env st) (heq : validateGitAccess env url st = (r, st')) :
    Follows env st st' ∧ (∀ served, r = .ok served → Covers env st' url) := by
  unfold validateGitAccess at heq
  split at heq
  · case h_1 e s hcheck =>
    cases heq
    exact ⟨(validateGitUrlNoSsrf_follows hdns h hcheck).1, fun served hr => by cases hr⟩
  · case h_2 s hcheck =>
    obtain ⟨hfollows, hcovers⟩ := validateGitUrlNoSsrf_follows hdns h hcheck
    have hfetch := gitFetch_follows hredirects hfollows.guarded (hcovers rfl)
    cases heq
    exact ⟨hfollows.trans hfetch, fun _ _ => Covers.mono (hcovers rfl) hfetch.grows⟩

include hredirects in
theorem cloneRepo_follows (h : IsGuarded env st) (hcovers : Covers env st url) : Follows env st (cloneRepo env url st).2 := by
  unfold cloneRepo
  split
  · exact Follows.refl h
  · exact gitFetch_follows hredirects h hcovers

include hdns hredirects in
theorem checkGithubAccessType_follows (key : AccessKey) (h : IsGuarded env st) :
    Follows env st (checkGithubAccessType env key st).2 := by
  unfold checkGithubAccessType
  split
  · exact Follows.refl h
  · split
    · case h_1 heq => exact (validateGitAccess_follows hdns hredirects h heq).1
    · case h_2 heq => exact (validateGitAccess_follows hdns hredirects h heq).1

include hdns hredirects in
/-- Whatever the generic check finds, it has covered the repository. -/
theorem checkGenericAccessType_follows {key : AccessKey} {r : Except String GitAccessType} (h : IsGuarded env st)
    (heq : checkGenericAccessType env key st = (r, st')) :
    Follows env st st' ∧ (∀ access, r = .ok access → Covers env st' key.repositoryUrl) := by
  unfold checkGenericAccessType at heq
  split at heq
  · case h_1 e s hprobe =>
    cases heq
    exact ⟨(validateGitAccess_follows hdns hredirects h hprobe).1, fun access hr => by cases hr⟩
  · case h_2 s hprobe =>
    obtain ⟨hfollows, hcovers⟩ := validateGitAccess_follows hdns hredirects h hprobe
    cases heq
    exact ⟨hfollows, fun _ _ => hcovers true rfl⟩
  · case h_3 s hprobe =>
    obtain ⟨hfollows, hcovers⟩ := validateGitAccess_follows hdns hredirects h hprobe
    split at heq
    · cases heq
      exact ⟨hfollows, fun _ _ => hcovers false rfl⟩
    · split at heq
      · case h_1 e s' hprobe' =>
        cases heq
        exact ⟨hfollows.trans (validateGitAccess_follows hdns hredirects hfollows.guarded hprobe').1, fun access hr => by cases hr⟩
      · case h_2 s' hprobe' =>
        obtain ⟨hlater, hcovers'⟩ := validateGitAccess_follows hdns hredirects hfollows.guarded hprobe'
        cases heq
        exact ⟨hfollows.trans hlater, fun _ _ => hcovers' true rfl⟩
      · case h_3 s' hprobe' =>
        obtain ⟨hlater, hcovers'⟩ := validateGitAccess_follows hdns hredirects hfollows.guarded hprobe'
        cases heq
        exact ⟨hfollows.trans hlater, fun _ _ => hcovers' false rfl⟩

include hdns hredirects in
theorem findAccess_follows {key : AccessKey} {r : Except String GitAccessType} (h : IsGuarded env st)
    (heq : findAccess env key st = (r, st')) : Follows env st st' ∧
      (∀ access, r = .ok access → isGithubRepository key.repositoryUrl = false → Covers env st' key.repositoryUrl) := by
  unfold findAccess at heq
  split at heq
  · case isTrue hgithub =>
    have hfollows := checkGithubAccessType_follows hdns hredirects key h
    cases heq
    exact ⟨hfollows, fun access _ hgeneric => absurd (hgithub.symm.trans hgeneric) (by decide)⟩
  · obtain ⟨hfollows, hcovers⟩ := checkGenericAccessType_follows hdns hredirects h heq
    exact ⟨hfollows, fun access hr _ => hcovers access hr⟩

include hdns hredirects in
/-- An answer of `get_access`, fresh or of the cache, that lets a repository be cloned covers it. -/
theorem getAccess_follows {now : Nat} {key : AccessKey} {r : Except String GitAccessType} (h : IsGuarded env st)
    (heq : getAccess env now key st = (r, st')) : Follows env st st' ∧ (∀ access, r = .ok access → access.isAccessible = true →
      isGithubRepository key.repositoryUrl = false → Covers env st' key.repositoryUrl) := by
  unfold getAccess at heq
  split at heq
  · case h_1 entry hfound =>
    have hmem := List.mem_of_find?_eq_some hfound
    obtain ⟨hkey, -⟩ : entry.1 = key ∧ now < entry.2.2 + 10 := by simpa using List.find?_some hfound
    cases heq
    refine ⟨Follows.refl h, fun access hr haccess hgithub => ?_⟩
    cases hr
    rw [← hkey] at hgithub ⊢
    exact h.cached entry hmem haccess hgithub
  · split at heq
    · case h_1 e s hfind =>
      cases heq
      exact ⟨(findAccess_follows hdns hredirects h hfind).1, fun access hr => by cases hr⟩
    · case h_2 access s hfind =>
      obtain ⟨hfollows, hcovers⟩ := findAccess_follows hdns hredirects h hfind
      cases heq
      refine ⟨⟨⟨hfollows.guarded.passed, hfollows.guarded.opened, fun entry he haccess hgithub => ?_⟩, hfollows.grows⟩,
        fun access' _ _ hgithub => hcovers access rfl hgithub⟩
      rcases List.mem_cons.1 he with rfl | he
      · exact hcovers access rfl hgithub
      · exact hfollows.guarded.cached entry he haccess hgithub

include hdns hredirects in
theorem validateGitApplication_follows (now : Nat) (key : AccessKey) (h : IsGuarded env st) :
    Follows env st (validateGitApplication env now key st).2 := by
  unfold validateGitApplication
  split
  · case h_1 heq => exact (getAccess_follows hdns hredirects h heq).1
  · case h_2 heq => exact (getAccess_follows hdns hredirects h heq).1
  · case h_3 access s hinaccessible heq =>
    obtain ⟨hfollows, hcovers⟩ := getAccess_follows hdns hredirects h heq
    split
    · exact hfollows
    · case isFalse hgithub =>
      have haccess : access.isAccessible = true := by
        cases access with
        | inaccessible message => exact absurd rfl (hinaccessible message)
        | gitHubApp => rfl
        | gitRepository => rfl
      exact hfollows.trans (cloneRepo_follows hredirects hfollows.guarded
        (hcovers access rfl haccess (Bool.eq_false_iff.2 hgithub)))

include hdns in
theorem validateUrlNotPrivate_follows {r : Except HttpError Unit} (h : IsGuarded env st)
    (heq : validateUrlNotPrivate env url st = (r, st')) : Follows env st st' ∧ (r = .ok () → hostname url ≠ [] ∧ Covers env st' url) := by
  unfold validateUrlNotPrivate at heq
  split at heq
  · cases heq
    exact ⟨Follows.refl h, fun hr => by cases hr⟩
  · case isFalse hhost =>
    cases hcheck : checkHostnameNotPrivate env (hostname url) st with
    | mk checked s =>
      obtain ⟨hfollows, hcovers⟩ := checkHostnameNotPrivate_follows hdns h hcheck
      rw [hcheck] at heq
      cases heq
      refine ⟨hfollows, fun hr => ⟨hhost, hcovers ?_⟩⟩
      cases checked with
      | ok => rfl
      | error e => cases hr

include hdns hredirects in
/-- The proxy opens its connection to the host that it checked. -/
theorem proxyGitRequest_follows (now : Nat) (deploymentId : List Char) (pat : Option (List Char)) (gitPath query : List Char)
    (h : IsGuarded env st) : Follows env st (proxyGitRequest env now deploymentId pat url gitPath query st).2 := by
  unfold proxyGitRequest
  split
  · exact Follows.refl h
  · split
    · exact Follows.refl h
    · split
      · case h_1 heq => exact (validateUrlNotPrivate_follows hdns h heq).1
      · case h_2 s hcheck =>
        obtain ⟨hfollows, hok⟩ := validateUrlNotPrivate_follows hdns h hcheck
        obtain ⟨hhost, hcovers⟩ := hok rfl
        split
        · case h_1 heq => exact hfollows.trans (getAccess_follows hdns hredirects hfollows.guarded heq).1
        · case h_2 heq => exact hfollows.trans (getAccess_follows hdns hredirects hfollows.guarded heq).1
        · case h_3 heq =>
          have hlater := (getAccess_follows hdns hredirects hfollows.guarded heq).1
          dsimp only
          rw [ProxyAux.hostname_targetUrl hhost]
          exact (hfollows.trans hlater).trans (connect_follows hlater.guarded (Covers.mono hcovers hlater.grows))

include hdns hredirects in
theorem serve_guarded (request : GitRequest) (h : IsGuarded env st) : IsGuarded env (request.serve env st) := by
  cases request with
  | validateRepository now key => exact (getAccess_follows hdns hredirects h rfl).1.guarded
  | validateGitApplication now key => exact (validateGitApplication_follows hdns hredirects now key h).guarded
  | proxyGitRequest now deploymentId pat repoUrl gitPath query =>
    exact (proxyGitRequest_follows hdns hredirects now deploymentId pat gitPath query h).guarded

include hdns hredirects in
theorem foldl_guarded (requests : List GitRequest) (h : IsGuarded env st) : IsGuarded env (requests.foldl (GitRequest.serve env) st) := by
  induction requests generalizing st with
  | nil => exact h
  | cons request requests ih => exact ih (serve_guarded hdns hredirects request h)

end Stable

end ConnectionsAux

open ConnectionsAux

/-- Every connection that a run of requests opens for a URL goes to an address that was checked for its host and is neither private,
loopback, link-local nor reserved, when each host name is always answered alike and no remote redirects a git client to another
host. -/
theorem connections_go_to_checked_addresses (env : GitEnvironment) (requests : List GitRequest)
    (hdns : ∀ n m host, env.dns n host = env.dns m host) (hredirects : ∀ n, env.redirects n = []) :
    ∀ c ∈ (serveAll env requests).opened, (hostname c.1, c.2) ∈ (serveAll env requests).checked ∧ c.2.isRefused = false := by
  have hstart : IsGuarded env {} :=
    ⟨fun c hc => absurd hc List.not_mem_nil, fun c hc => absurd hc List.not_mem_nil, fun e he => absurd he List.not_mem_nil⟩
  have hend : IsGuarded env (serveAll env requests) := foldl_guarded hdns hredirects requests hstart
  intro c hc
  have hmem := hend.opened c hc
  exact ⟨hmem, hend.passed (hostname c.1, c.2) hmem⟩

namespace ConnectionsWitness

/-- A request to validate a repository. -/
def validate : GitRequest := .validateRepository 0 ⟨ProxyWitness.repoUrl, none, none, none⟩

/-- A network that answers the check with a public address and the client that follows it with a private one. -/
def rebinding : GitEnvironment :=
  { ProxyWitness.openNetwork with
    dns n _ := some [if n = 0 then ⟨16843009, false, false, false, false⟩ else ⟨167772161, true, false, false, false⟩] }

end ConnectionsWitness

open ConnectionsWitness in
/-- The condition is met by a network that never changes, in which the probe opens a connection. -/
theorem connections_go_to_checked_addresses_probe :
    (ProxyWitness.repoUrl, (⟨16843009, false, false, false, false⟩ : IpAddress)) ∈
        (serveAll ProxyWitness.openNetwork [validate]).opened ∧
      ∀ c ∈ (serveAll ProxyWitness.openNetwork [validate]).opened,
        (hostname c.1, c.2) ∈ (serveAll ProxyWitness.openNetwork [validate]).checked ∧ c.2.isRefused = false :=
  ⟨by decide, connections_go_to_checked_addresses ProxyWitness.openNetwork [validate] (fun _ _ _ => rfl) fun _ => rfl⟩

open ConnectionsWitness in
/-- The answer that was checked is thrown away: the probe looks the name up again and connects to a private address. -/
theorem connections_go_to_checked_addresses_false :
    ∃ c ∈ (serveAll rebinding [validate]).opened,
      c.1 = ProxyWitness.repoUrl ∧ (hostname c.1, c.2) ∉ (serveAll rebinding [validate]).checked ∧ c.2.isPrivate = true :=
  ⟨(ProxyWitness.repoUrl, ⟨167772161, true, false, false, false⟩), by decide, by decide⟩

end LlamaAgents.GitNetwork

import LlamaAgents.Lib.Uri

/-!
# The git connections of the control plane

The checks of `git_util.py`, the access checks of `_git_service.py` and the git proxy of `build_app.py`, with every lookup of a host
name and every connection. A text is the list of its characters. Host names are lower-cased on their ASCII letters. What the network
answers is given for each lookup by its number.
-/

namespace LlamaAgents.GitNetwork

/-! ## URLs -/

/-- `urlparse(url).hostname`, empty when there is none. -/
def hostname (url : List Char) : List Char :=
  let hostinfo := ((Lib.Uri.parse url).authority.getD []).rtakeWhile (· ≠ '@')
  match hostinfo.dropWhile (· ≠ '[') with
  | _ :: bracketed => (bracketed.takeWhile (· ≠ ']')).map Char.toLower
  | [] => (hostinfo.takeWhile (· ≠ ':')).map Char.toLower

/-- `urlparse(url).scheme.lower()`. -/
def scheme (url : List Char) : List Char := ((Lib.Uri.parse url).scheme.getD []).map Char.toLower

/-- `validate_git_url`. -/
def validateGitUrl (url : List Char) : Except String Unit :=
  let text := String.ofList url
  if "-".toList.isPrefixOf url then .error ("Invalid git URL (starts with '-'): " ++ text)
  else if "ext::".toList.isPrefixOf url then .error ("Disallowed git URL scheme 'ext': " ++ text)
  else if scheme url = "https".toList ∨ scheme url = "http".toList then .ok ()
  else .error ("Disallowed git URL scheme '" ++ String.ofList (scheme url) ++ "': " ++ text ++ ". Allowed schemes: http, https")

/-- What a pattern of `parse_github_repo_url` reads after its fixed part. -/
def ownerAndRepo (rest : List Char) : Option (List Char × List Char) :=
  let owner := rest.takeWhile (· ≠ '/')
  let repo := ((rest.dropWhile (· ≠ '/')).drop 1).takeWhile (· ≠ '/')
  if owner = [] ∨ repo = [] then none else some (owner, repo)

/-- The fixed parts of the patterns of `parse_github_repo_url`. -/
def githubPatterns : List (List Char) := ["https://github.com/".toList, "git@github.com:".toList, "github.com/".toList]

/-- `str.removesuffix`. -/
def removeEnd (suffix text : List Char) : List Char := if suffix.isSuffixOf text then text.take (text.length - suffix.length) else text

/-- `parse_github_repo_url`. -/
def parseGithubRepoUrl (repoUrl : List Char) : Option (List Char × List Char) :=
  let url := removeEnd ".git".toList (repoUrl.rdropWhile (· = '/'))
  githubPatterns.findSome? fun pattern => if pattern.isPrefixOf url then ownerAndRepo (url.drop pattern.length) else none

/-- `part in text`. -/
def contains (text part : List Char) : Bool := text.tails.any (part.isPrefixOf ·)

/-- `GitService._is_github_repository`. -/
def isGithubRepository (url : List Char) : Bool :=
  if "git@".toList.isPrefixOf url then decide ((url.drop 4).takeWhile (· ≠ ':') = "github.com".toList)
  else
    let host := hostname (if contains url "://".toList then url else "https://".toList ++ url)
    decide (host = "github.com".toList ∨ host = "www.github.com".toList)

/-! ## The network -/

/-- An address with what `ipaddress` says of it. -/
structure IpAddress where
  number : Nat
  isPrivate : Bool := false
  isLoopback : Bool := false
  isLinkLocal : Bool := false
  isReserved : Bool := false
deriving DecidableEq

/-- The addresses that the check refuses. -/
def IpAddress.isRefused (ip : IpAddress) : Bool := ip.isPrivate || ip.isLoopback || ip.isLinkLocal || ip.isReserved

/-- How a repository can be reached: `GitAccessType`. -/
inductive GitAccessType where
  | gitHubApp (ownerAndRepo : List Char × List Char) (installationId : Nat)
  | gitRepository (accessToken : Option (List Char))
  | inaccessible (message : String)

/-- Whether access was found. -/
def GitAccessType.isAccessible : GitAccessType → Bool
  | .inaccessible _ => false
  | _ => true

/-- The arguments of `get_access`, which are the key of its cache. -/
structure AccessKey where
  repositoryUrl : List Char
  deploymentId : Option (List Char)
  pat : Option (List Char) := none
  existingPat : Option (List Char) := none
deriving DecidableEq

/-- `pat or existing_pat`. -/
def AccessKey.patToTest (key : AccessKey) : Option (List Char) :=
  if key.pat.any (· ≠ []) then key.pat else if key.existingPat.any (· ≠ []) then key.existingPat else none

/-- What the code meets outside: the answer to each lookup of a host name, how many addresses of an answer a client tries, whether the
remote serves a request, the other hosts that it redirects a git client to, and what the API of GitHub answers. -/
structure GitEnvironment where
  dns : Nat → List Char → Option (List IpAddress)
  tried : Nat → Nat
  remote : Nat → Bool
  redirects : Nat → List (List Char)
  github : List Char × List Char → Option (List Char) → GitAccessType
  installationToken : Nat → List Char
  hasStorage : Bool

/-- How many lookups were made, the addresses that passed the check with the host name they were checked for, the addresses that
connections were opened to with the URL they were opened for, and the cache of `get_access` with the time of each entry. -/
structure GitState where
  lookups : Nat := 0
  checked : List (List Char × IpAddress) := []
  opened : List (List Char × IpAddress) := []
  cache : List (AccessKey × GitAccessType × Nat) := []

variable (env : GitEnvironment)

/-- `_check_hostname_not_private`. The addresses before the first that is refused pass. -/
def checkHostnameNotPrivate (host : List Char) (st : GitState) : Except String Unit × GitState :=
  match env.dns st.lookups host with
  | none => (.error ("DNS resolution failed for " ++ String.ofList host), { st with lookups := st.lookups + 1 })
  | some ips =>
    let passed := ips.takeWhile (!·.isRefused)
    (if ips.any (·.isRefused) then .error ("Git URL resolves to a private network address: " ++ String.ofList host) else .ok (),
      { st with lookups := st.lookups + 1, checked := st.checked ++ passed.map (host, ·) })

/-- `validate_git_url_no_ssrf`. -/
def validateGitUrlNoSsrf (url : List Char) (st : GitState) : Except String Unit × GitState :=
  match validateGitUrl url with
  | .error e => (.error e, st)
  | .ok () =>
    if hostname url = [] then (.error ("Invalid git URL (no hostname): " ++ String.ofList url), st)
    else checkHostnameNotPrivate env (hostname url) st

/-- A client looks up a host name itself and tries addresses of the answer, for a request of the URL. -/
def connect (url host : List Char) (st : GitState) : GitState :=
  let answer := (env.dns st.lookups host).getD []
  { st with lookups := st.lookups + 1, opened := st.opened ++ (answer.take (env.tried st.lookups)).map (url, ·) }

/-- A request of the git client, which follows redirects. -/
def gitFetch (url : List Char) (st : GitState) : Bool × GitState :=
  (env.remote st.lookups && (env.dns st.lookups (hostname url)).isSome,
    (env.redirects st.lookups).foldl (fun st host => connect env url host st) (connect env url (hostname url) st))

/-- `validate_git_public_access` and `validate_git_credential_access`: the check, then `_probe_remote`. -/
def validateGitAccess (url : List Char) (st : GitState) : Except String Bool × GitState :=
  match validateGitUrlNoSsrf env url st with
  | (.error e, st) => (.error e, st)
  | (.ok (), st) => ((gitFetch env url st).map .ok id)

/-- `clone_repo`. -/
def cloneRepo (url : List Char) (st : GitState) : Except String Unit × GitState :=
  match validateGitUrl url with
  | .error e => (.error e, st)
  | .ok () => (gitFetch env url st).map
      (fun served => if served then .ok () else .error ("Failed to clone repository " ++ String.ofList url)) id

/-! ## The access to a repository -/

/-- `_check_github_access_type`: a failed check only skips the public probe. -/
def checkGithubAccessType (key : AccessKey) (st : GitState) : GitAccessType × GitState :=
  match parseGithubRepoUrl key.repositoryUrl with
  | none => (.inaccessible
      "Invalid GitHub repository URL. Expected format 'https://github.com/<owner>/<repository>'.", st)
  | some ownerAndRepo =>
    match validateGitAccess env key.repositoryUrl st with
    | (.ok true, st) => (.gitRepository none, st)
    | (_, st) => (env.github ownerAndRepo key.patToTest, st)

/-- `_check_generic_access_type`. -/
def checkGenericAccessType (key : AccessKey) (st : GitState) : Except String GitAccessType × GitState :=
  match validateGitAccess env key.repositoryUrl st with
  | (.error e, st) => (.error e, st)
  | (.ok true, st) => (.ok (.gitRepository none), st)
  | (.ok false, st) =>
    match key.patToTest with
    | none => (.ok (.inaccessible "Repository is private or does not exist."), st)
    | some pat =>
      match validateGitAccess env key.repositoryUrl st with
      | (.error e, st) => (.error e, st)
      | (.ok true, st) => (.ok (.gitRepository (some pat)), st)
      | (.ok false, st) => (.ok (.inaccessible "Personal Access Token does not have access to this repository."), st)

/-- The body of `get_access`. -/
def findAccess (key : AccessKey) (st : GitState) : Except String GitAccessType × GitState :=
  if isGithubRepository key.repositoryUrl then (checkGithubAccessType env key st).map .ok id else checkGenericAccessType env key st

/-- `get_access` at a time: an answer of the last ten seconds is used again. -/
def getAccess (now : Nat) (key : AccessKey) (st : GitState) : Except String GitAccessType × GitState :=
  match st.cache.find? fun entry => entry.1 = key ∧ now < entry.2.2 + 10 with
  | some entry => (.ok entry.2.1, st)
  | none =>
    match findAccess env key st with
    | (.error e, st) => (.error e, st)
    | (.ok access, st) => (.ok access, { st with cache := (key, access, now) :: st.cache })

/-- The credentials of `obtain_basic_auth_token`. -/
def basicAuth : GitAccessType → Option (List Char)
  | .gitHubApp _ installationId => some ("x-access-token:".toList ++ env.installationToken installationId)
  | .gitRepository accessToken => accessToken
  | .inaccessible _ => none

/-- `validate_git_application` up to the files of the repository, with the token of the deployment when the request has none. The files
of a repository on GitHub are read through its API. -/
def validateGitApplication (now : Nat) (key : AccessKey) (st : GitState) : Except String Unit × GitState :=
  match getAccess env now { key with existingPat := none } st with
  | (.error e, st) => (.error e, st)
  | (.ok (.inaccessible message), st) => (.error message, st)
  | (.ok _, st) => if isGithubRepository key.repositoryUrl then (.ok (), st) else cloneRepo env key.repositoryUrl st

/-! ## The git proxy -/

/-- The texts that `_GIT_PATH_PATTERN` matches up to the end. -/
def isGitPath (text : List Char) : Bool :=
  ["info/refs".toList, "HEAD".toList, "git-upload-pack".toList, "git-receive-pack".toList].contains text ||
    ("objects/".toList.isPrefixOf text && !(text.drop 8).isEmpty && !(text.drop 8).contains '\n')

/-- `_GIT_PATH_PATTERN.match`: its last anchor also holds before a line break at the end. -/
def matchesGitPath (text : List Char) : Bool := isGitPath text || (decide (text.getLast? = some '\n') && isGitPath text.dropLast)

/-- An `HTTPException`. -/
structure HttpError where
  status : Nat
  detail : String

/-- `_validate_git_path`. -/
def validateGitPath (gitPath : List Char) : Except HttpError Unit :=
  if matchesGitPath ((gitPath.dropWhile (· = '/')).rdropWhile (· = '/')) then .ok ()
  else .error ⟨400, "Invalid git path: " ++ String.ofList gitPath⟩

/-- `_validate_url_not_private`. -/
def validateUrlNotPrivate (url : List Char) (st : GitState) : Except HttpError Unit × GitState :=
  if hostname url = [] then (.error ⟨400, "Invalid URL: no hostname"⟩, st)
  else
    let status (message : String) := if contains message.toList "private network".toList then 403 else 400
    (checkHostnameNotPrivate env (hostname url) st).map (Except.mapError fun message => ⟨status message, message⟩) id

/-- How a git request is served: from the storage of the control plane, or by a request to the repository with credentials. -/
inductive GitServed where
  | internal
  | upstream (url : List Char) (auth : Option (List Char × List Char))

/-- The target of the proxy. -/
def targetUrl (repoUrl gitPath query : List Char) : List Char :=
  repoUrl.rdropWhile (· = '/') ++ '/' :: (gitPath ++ if query = [] then [] else '?' :: query)

/-- The user and the password of `auth.split(":")`. -/
def structuredAuth (auth : List Char) : List Char × List Char := ((auth.splitOn ':').getD 0 [], (auth.splitOn ':').getD 1 [])

/-- `proxy_git_request`, with the token of the deployment. The client follows no redirects. An error of the access check is a server
error. -/
def proxyGitRequest (now : Nat) (deploymentId : List Char) (pat : Option (List Char)) (repoUrl gitPath query : List Char)
    (st : GitState) : Except HttpError GitServed × GitState :=
  if repoUrl = "internal://".toList then
    (if env.hasStorage then .ok .internal else .error ⟨503, "Code repo storage not configured (S3_BUCKET not set)."⟩, st)
  else
    match validateGitPath gitPath with
    | .error e => (.error e, st)
    | .ok () =>
      match validateUrlNotPrivate env repoUrl st with
      | (.error e, st) => (.error e, st)
      | (.ok (), st) =>
        match getAccess env now ⟨repoUrl, some deploymentId, pat, none⟩ st with
        | (.error e, st) => (.error ⟨500, e⟩, st)
        | (.ok (.inaccessible message), st) => (.error ⟨403, message⟩, st)
        | (.ok access, st) =>
          let target := targetUrl repoUrl gitPath query
          let auth := (basicAuth env access).filter (· ≠ [])
          (.ok (.upstream target (auth.map structuredAuth)), connect env repoUrl (hostname target) st)

/-! ## Runs -/

/-- The requests that lead to git connections. -/
inductive GitRequest where
  | validateRepository (now : Nat) (key : AccessKey)
  | validateGitApplication (now : Nat) (key : AccessKey)
  | proxyGitRequest (now : Nat) (deploymentId : List Char) (pat : Option (List Char)) (repoUrl gitPath query : List Char)

/-- The state after a request. `validate_repository` makes its response of the access. -/
def GitRequest.serve (st : GitState) : GitRequest → GitState
  | .validateRepository now key => (getAccess env now key st).2
  | .validateGitApplication now key => (GitNetwork.validateGitApplication env now key st).2
  | .proxyGitRequest now deploymentId pat repoUrl gitPath query =>
      (GitNetwork.proxyGitRequest env now deploymentId pat repoUrl gitPath query st).2

/-- The state after requests. -/
def serveAll (requests : List GitRequest) : GitState := requests.foldl (GitRequest.serve env) {}

end LlamaAgents.GitNetwork

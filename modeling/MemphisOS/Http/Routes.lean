import MemphisOS.Ecma.Documents
import MemphisOS.Http.Guard

/-!
# The guards of the routes

The hook compares the URL as it was sent with the paths of its tables. The router dispatches on the
path it decodes from the URL, so another spelling of a path reaches its handler unguarded.
-/

namespace MemphisOS.Http

open Ecma

structure Route where
  method : String
  path : String
  deriving DecidableEq

/-- The routes of the server. -/
def routes : List Route :=
  [⟨"GET", "/health"⟩, ⟨"GET", "/v1/providers/health"⟩, ⟨"GET", "/metrics"⟩, ⟨"GET", "/v1/metrics"⟩,
    ⟨"GET", "/v1/ops/status"⟩, ⟨"POST", "/v1/vault/init"⟩, ⟨"POST", "/v1/vault/encrypt"⟩,
    ⟨"POST", "/v1/vault/decrypt"⟩, ⟨"GET", "/v1/vault/entries"⟩,
    ⟨"POST", "/v1/admin/dual-approval/request"⟩, ⟨"POST", "/v1/admin/dual-approval/approve"⟩,
    ⟨"POST", "/v1/admin/dual-approval/cancel"⟩, ⟨"GET", "/v1/admin/dual-approval/:requestId"⟩,
    ⟨"GET", "/v1/sessions"⟩, ⟨"GET", "/v1/sessions/:sessionId/events"⟩,
    ⟨"POST", "/v1/soul/replay"⟩, ⟨"POST", "/v1/soul/loop-step"⟩, ⟨"POST", "/v1/chat/generate"⟩,
    ⟨"POST", "/api/model-d/proposals"⟩, ⟨"POST", "/api/journal"⟩, ⟨"POST", "/api/recall"⟩,
    ⟨"POST", "/api/decide"⟩]

/-! ## The router -/

/-- A letter, a digit, a hyphen, an underscore or a slash. -/
def isPlainUnit (u : UInt16) : Bool :=
  (0x61 ≤ u.toNat && u.toNat ≤ 0x7A) || (0x41 ≤ u.toNat && u.toNat ≤ 0x5A) ||
    (0x30 ≤ u.toNat && u.toNat ≤ 0x39) || u = 0x2D || u = 0x5F || u = 0x2F

/-- A path that is its own decoding. -/
def isPlainPath (path : JsString) : Bool := path.head? = some 0x2F && path.all isPlainUnit

/-- The path has the segments of the pattern, where one after a colon stands for any. -/
def fits (pattern path : JsString) : Bool :=
  let segments := pattern.splitOn 0x2F
  let parts := path.splitOn 0x2F
  segments.length = parts.length && (segments.zip parts).all fun (segment, part) =>
    segment.head? = some 0x3A || segment = part

/-- What the server relies on of its router. -/
structure Router where
  /-- The decoded path of a URL; some URLs are rejected. -/
  decodedPath : JsString → Option JsString
  /-- The route of a method and a path. -/
  find : JsString → JsString → Option Route
  decodes_plain : ∀ path query, isPlainPath path = true → query = [] ∨ query.head? = some 0x3F →
    decodedPath (path ++ query) = some path
  /-- Characters that need no decoding are kept. -/
  keeps_plain : ∀ front rest path, isPlainPath front = true →
    decodedPath (front ++ rest) = some path → front <+: path
  find_mem : ∀ method path route, find method path = some route → route ∈ routes
  /-- The routes of `GET` are also those of `HEAD`. -/
  find_method : ∀ method path route, find method path = some route →
    method = js route.method ∨ method = js "HEAD" ∧ route.method = "GET"
  find_fits : ∀ method path route, find method path = some route →
    fits (js route.path) path = true

/-- The route whose handler gets the request. -/
def Router.dispatch (router : Router) (request : Request) : Option Route :=
  (router.decodedPath request.url).bind (router.find request.method)

/-! ## Guards -/

def Route.failClosed (route : Route) : Bool :=
  isRevocationFailClosedRoute (js route.method) (js route.path)

def Route.sensitive (route : Route) : Bool := isSensitiveRoute (js route.path)

def Route.safe (route : Route) : Bool := isSafeModeAllowedRoute (js route.method) (js route.path)

/-- The key of the stricter limit. -/
def sensitiveKey (request : Request) : JsString :=
  request.ip ++ js ":" ++ request.method ++ js ":" ++ normalizeRoutePath request.url

/-- The hook puts the request where its route is, and refuses it when the guard of that set does. -/
structure GuardedAs (request : Request) (route : Route) : Prop where
  failClosed : route.failClosed = true →
    isRevocationFailClosedRoute request.method (normalizeRoutePath request.url) = true ∧
      ∀ server reason, server.revocationStale = some reason →
        onRequest server request ≠ .admitted
  sensitive : route.sensitive = true →
    isSensitiveRoute (normalizeRoutePath request.url) = true ∧
      ∀ server, server.sensitiveLimiter (sensitiveKey request) = false →
        onRequest server request ≠ .admitted
  safeMode : route.safe = false → ∀ server, safeModeEnabled server.env = true →
    onRequest server request ≠ .admitted

/-- The URL has the path of the route as it is written, or a prefix of the sensitive routes that
the path of the route has. -/
def Spelled (request : Request) (route : Route) : Prop :=
  normalizeRoutePath request.url = js route.path ∨
    ∃ start ∈ sensitivePrefixRoutes,
      start <+: js route.path ∧ start <+: normalizeRoutePath request.url

variable {server : Server} {request : Request} {route : Route} {reason path rest : JsString}
  {router : Router}

/-- A stale revocation cache stops the requests to the routes that are closed then. -/
theorem not_admitted_of_stale (hstale : server.revocationStale = some reason)
    (hroute : isRevocationFailClosedRoute request.method (normalizeRoutePath request.url) = true) :
    onRequest server request ≠ .admitted := by
  unfold onRequest
  split
  · exact fun h => by cases h
  · split
    · exact fun h => by cases h
    · dsimp only
      rw [hroute, if_pos rfl, hstale]
      split <;> exact fun h => by cases h

/-- The stricter limit stops the requests to the sensitive routes. -/
theorem not_admitted_of_limited (hlimited : server.sensitiveLimiter (sensitiveKey request) = false)
    (hroute : isSensitiveRoute (normalizeRoutePath request.url) = true) :
    onRequest server request ≠ .admitted := by
  rw [sensitiveKey] at hlimited
  unfold onRequest
  split
  · exact fun h => by cases h
  · split
    · exact fun h => by cases h
    · dsimp only
      have hcheck : (true && !false) = true := rfl
      rw [hroute, hlimited, if_pos hcheck]
      split
      · exact fun h => by cases h
      · split <;> exact fun h => by cases h

/-! ## Paths that are written out -/

/-- The URL is the path and a query. -/
theorem exists_query (url : JsString) :
    ∃ query, url = normalizeRoutePath url ++ query ∧ (query = [] ∨ query.head? = some 0x3F) := by
  refine ⟨url.dropWhile (· ≠ 0x3F), (List.takeWhile_append_dropWhile).symm, ?_⟩
  cases hdrop : url.dropWhile (· ≠ 0x3F) with
  | nil => exact .inl rfl
  | cons u rest =>
    have hhead := List.head?_dropWhile_not (fun u : UInt16 => decide (u ≠ 0x3F)) url
    rw [hdrop] at hhead
    simp at hhead
    exact .inr (congrArg some hhead)

/-- A plain path is dispatched as it is. -/
theorem dispatch_plain (hplain : isPlainPath (normalizeRoutePath request.url) = true)
    (hdispatch : router.dispatch request = some route) :
    router.find request.method (normalizeRoutePath request.url) = some route := by
  obtain ⟨query, hurl, hquery⟩ := exists_query request.url
  have hdecoded := router.decodes_plain _ query hplain hquery
  rw [← hurl] at hdecoded
  rwa [Router.dispatch, hdecoded, Option.bind_some] at hdispatch

/-! ## Facts about the tables -/

/-- No segment of the pattern stands for any. -/
def isStatic (pattern : JsString) : Bool :=
  (pattern.splitOn 0x2F).all fun segment => segment.head? ≠ some 0x3A

/-- The paths that safe mode allows. -/
def safeExactRoutes : List JsString :=
  [js "/health", js "/v1/providers/health", js "/v1/metrics", js "/v1/ops/status",
    js "/v1/sessions", js "/v1/vault/entries"]

theorem isPlainPath_tables : (sensitiveExactRoutes ++ revocationFailClosedRoutes ++
    safeExactRoutes ++ sensitivePrefixRoutes).all isPlainPath = true := by decide

/-- A guarded route has a path without parameters or one with a sensitive prefix, and the table of
exact paths has none that fits the latter. -/
theorem guarded_routes : routes.all (fun route => !(route.failClosed || route.sensitive) ||
    isStatic (js route.path) || (!route.failClosed &&
      sensitivePrefixRoutes.any (fun start => start.isPrefixOf (js route.path)) &&
      sensitiveExactRoutes.all fun path => !fits (js route.path) path)) = true := by decide

/-- The routes of `GET` that fit a path which safe mode allows are allowed. -/
theorem safe_routes : routes.all (fun route => route.method ≠ "GET" || route.safe ||
    safeExactRoutes.all fun path => !fits (js route.path) path) = true := by decide

/-- Every route with a parameter is allowed in safe mode or below another directory. -/
theorem parameter_routes : routes.all (fun route => isStatic (js route.path) || route.safe ||
    (js route.path).splitOn 0x2F = [[], js "v1", js "admin", js "dual-approval", js ":requestId"])
      = true := by decide

/-- A path that fits a pattern without parameters is the pattern. -/
theorem eq_of_fits {pattern : JsString} (hstatic : isStatic pattern = true)
    (h : fits pattern path = true) : path = pattern := by
  unfold fits at h
  dsimp only at h
  rw [Bool.and_eq_true, decide_eq_true_eq, List.all_eq_true] at h
  obtain ⟨hlength, hall⟩ := h
  have hsegments : pattern.splitOn 0x2F = path.splitOn 0x2F := by
    refine List.ext_getElem hlength fun i hi hi' => ?_
    have hzip : i < ((pattern.splitOn 0x2F).zip (path.splitOn 0x2F)).length := by
      rw [List.length_zip, ← hlength, Nat.min_self]
      exact hi
    have hpair := hall _ (List.getElem_mem hzip)
    rw [List.getElem_zip, Bool.or_eq_true, decide_eq_true_eq, decide_eq_true_eq] at hpair
    have hnot := List.all_eq_true.mp hstatic _ (List.getElem_mem hi)
    exact hpair.resolve_left (of_decide_eq_true hnot)
  have hjoin : ∀ p : JsString, ([0x2F] : JsString).intercalate (p.splitOn 0x2F) = p :=
    fun p => List.intercalate_splitOn 0x2F
  rw [← hjoin path, ← hsegments, hjoin]

/-- A path below the sessions fits no pattern below another directory. -/
theorem not_fits_sessions {pattern : JsString}
    (hpattern : pattern.splitOn 0x2F =
      [[], js "v1", js "admin", js "dual-approval", js ":requestId"])
    (hstart : js "/v1/sessions/" <+: path) : fits pattern path = false := by
  obtain ⟨rest, rfl⟩ := hstart
  have hsplit : (js "/v1/sessions/" ++ rest).splitOn 0x2F =
      [[], js "v1", js "sessions"] ++ rest.splitOn 0x2F := by
    have hpath : js "/v1/sessions/" ++ rest = js "/v1/sessions" ++ 0x2F :: rest := rfl
    rw [hpath, List.splitOn_append_cons_self]
    rfl
  have hne : js "admin" ≠ js "sessions" := by decide
  have hhead : (js "admin").head? ≠ some 0x3A := by decide
  rw [fits, hpattern, hsplit]
  simp [hne, hhead]

theorem mem_of_isSafeModeAllowedRoute {method : JsString}
    (h : isSafeModeAllowedRoute method path = true) :
    method = js "GET" ∧ (path ∈ safeExactRoutes ∨ js "/v1/sessions/" <+: path) := by
  simp only [isSafeModeAllowedRoute, Bool.and_eq_true, Bool.or_eq_true, decide_eq_true_eq] at h
  obtain ⟨hmethod, h⟩ := h
  refine ⟨hmethod, ?_⟩
  rcases h with (((((h | h) | h) | h) | h) | h) | h
  · exact .inl (by rw [h]; decide)
  · exact .inl (by rw [h]; decide)
  · exact .inl (by rw [h]; decide)
  · exact .inl (by rw [h]; decide)
  · exact .inl (by rw [h]; decide)
  · exact .inr h
  · exact .inl (by rw [h]; decide)

/-- The plain paths are those of the tables. -/
theorem isPlainPath_of_mem (h : path ∈ sensitiveExactRoutes ++ revocationFailClosedRoutes ++
    safeExactRoutes ++ sensitivePrefixRoutes) : isPlainPath path = true :=
  List.all_eq_true.mp isPlainPath_tables path h

/-! ## Dispatched requests -/

theorem Router.exists_of_dispatch (h : router.dispatch request = some route) :
    ∃ path, router.decodedPath request.url = some path ∧
      router.find request.method path = some route :=
  Option.bind_eq_some_iff.mp h

/-- A prefix of the URL that needs no decoding is one of the path that is dispatched. -/
theorem Router.prefix_decodedPath {start : JsString} (hplain : isPlainPath start = true)
    (hstart : start <+: normalizeRoutePath request.url)
    (hpath : router.decodedPath request.url = some path) : start <+: path := by
  obtain ⟨rest, hrest⟩ := hstart
  obtain ⟨query, hurl, -⟩ := exists_query request.url
  rw [hurl, ← hrest, List.append_assoc] at hpath
  exact router.keeps_plain _ _ _ hplain hpath

/-- **Safe mode lets no request to a route through that is not on its list**, however the URL is
spelled: what it allows is spelled as in the list. -/
theorem not_admitted_in_safe_mode (hdispatch : router.dispatch request = some route)
    (hroute : route.safe = false) (henabled : safeModeEnabled server.env = true) :
    onRequest server request ≠ .admitted := by
  refine not_admitted henabled ?_
  rw [← Bool.not_eq_true]
  intro hallowed
  obtain ⟨hmethod, hpath⟩ := mem_of_isSafeModeAllowedRoute hallowed
  obtain ⟨path, hdecoded, hfind⟩ := router.exists_of_dispatch hdispatch
  have hmem := router.find_mem _ _ _ hfind
  have hget : route.method = "GET" := by
    rcases router.find_method _ _ _ hfind with h | ⟨h, -⟩
    · exact (js_inj.mp (hmethod.symm.trans h)).symm
    · exact absurd (hmethod.symm.trans h) (by decide)
  rcases hpath with hexact | hstart
  · have hplain := isPlainPath_of_mem (List.mem_append_left _ (List.mem_append_right _ hexact))
    have hfits := router.find_fits _ _ _ (dispatch_plain hplain hdispatch)
    have hsafe := List.all_eq_true.mp safe_routes route hmem
    rw [hroute, hget, Bool.or_false] at hsafe
    have hall := (Bool.or_eq_true _ _ ▸ hsafe).resolve_left (by decide)
    have hnot := List.all_eq_true.mp hall _ hexact
    rw [hfits] at hnot
    cases hnot
  · have hplain : isPlainPath (js "/v1/sessions/") = true := by decide
    have hfront := router.prefix_decodedPath hplain hstart hdecoded
    have hfits := router.find_fits _ _ _ hfind
    have hparameter := List.all_eq_true.mp parameter_routes route hmem
    rw [hroute, Bool.or_false, Bool.or_eq_true, decide_eq_true_eq] at hparameter
    rcases hparameter with hstatic | hadmin
    · rw [eq_of_fits hstatic hfits] at hfront
      have hsafe : route.safe = true := by
        rw [Route.safe, isSafeModeAllowedRoute, hget, decide_eq_true hfront]
        simp
      rw [hroute] at hsafe
      cases hsafe
    · rw [not_fits_sessions hadmin hfront] at hfits
      cases hfits

/-- The route of a guarded request whose URL is in the table of its set is spelled out. -/
theorem spelled_of_guardedAs (hdispatch : router.dispatch request = some route)
    (hguarded : (route.failClosed || route.sensitive) = true) (h : GuardedAs request route) :
    Spelled request route := by
  obtain ⟨path, hdecoded, hfind⟩ := router.exists_of_dispatch hdispatch
  have htable := List.all_eq_true.mp guarded_routes route (router.find_mem _ _ _ hfind)
  rw [hguarded, Bool.not_true, Bool.false_or, Bool.or_eq_true, Bool.and_eq_true,
    Bool.and_eq_true] at htable
  have hstatic : isStatic (js route.path) = true →
      isPlainPath (normalizeRoutePath request.url) = true → Spelled request route :=
    fun hstatic hplain =>
      .inl (eq_of_fits hstatic (router.find_fits _ _ _ (dispatch_plain hplain hdispatch)))
  cases hclosed : route.failClosed with
  | true =>
    have hraw := (h.failClosed hclosed).1
    rw [isRevocationFailClosedRoute, Bool.and_eq_true, decide_eq_true_eq, decide_eq_true_eq] at hraw
    refine hstatic (htable.resolve_right ?_) (isPlainPath_of_mem (List.mem_append_left _
      (List.mem_append_left _ (List.mem_append_right _ hraw.2))))
    rw [hclosed]
    rintro ⟨⟨hnot, -⟩, -⟩
    cases hnot
  | false =>
    rw [hclosed, Bool.false_or] at hguarded
    have hraw := (h.sensitive hguarded).1
    rw [isSensitiveRoute, Bool.or_eq_true, decide_eq_true_eq, List.any_eq_true] at hraw
    rcases hraw with hexact | ⟨start, hmem, hstart⟩
    · have hplain := isPlainPath_of_mem (List.mem_append_left _
        (List.mem_append_left _ (List.mem_append_left _ hexact)))
      refine hstatic (htable.resolve_right ?_) hplain
      rintro ⟨-, hnone⟩
      have hnot := List.all_eq_true.mp hnone _ hexact
      rw [router.find_fits _ _ _ (dispatch_plain hplain hdispatch)] at hnot
      cases hnot
    · rw [decide_eq_true_eq] at hstart
      have hfront := router.prefix_decodedPath
        (isPlainPath_of_mem (List.mem_append_right _ hmem)) hstart hdecoded
      refine .inr ⟨start, hmem, ?_, hstart⟩
      rcases htable with hpath | ⟨⟨-, hany⟩, -⟩
      · rw [← eq_of_fits hpath (router.find_fits _ _ _ hfind)]
        exact hfront
      · obtain ⟨start', hmem', hstart'⟩ := List.any_eq_true.mp hany
        obtain rfl := List.mem_singleton.mp hmem
        obtain rfl := List.mem_singleton.mp hmem'
        exact List.isPrefixOf_iff_prefix.mp hstart'

theorem guardedAs_of_spelled (hdispatch : router.dispatch request = some route)
    (h : (route.failClosed || route.sensitive) = true → Spelled request route) :
    GuardedAs request route := by
  obtain ⟨path, hdecoded, hfind⟩ := router.exists_of_dispatch hdispatch
  refine ⟨fun hclosed => ?_, fun hsensitive => ?_, fun hroute server henabled =>
    not_admitted_in_safe_mode hdispatch hroute henabled⟩
  · have hspelled := h (by rw [hclosed]; rfl)
    rw [Route.failClosed, isRevocationFailClosedRoute, Bool.and_eq_true, decide_eq_true_eq,
      decide_eq_true_eq] at hclosed
    have hmethod : request.method = js "POST" := by
      rcases router.find_method _ _ _ hfind with hm | ⟨-, hget⟩
      · exact hm.trans hclosed.1
      · rw [hget] at hclosed
        exact absurd hclosed.1 (by decide)
    have hraw : normalizeRoutePath request.url = js route.path := by
      rcases hspelled with heq | ⟨start, hmem, hstart, -⟩
      · exact heq
      · have hnone : revocationFailClosedRoutes.all
            (fun p => sensitivePrefixRoutes.all fun s => !s.isPrefixOf p) = true := by decide
        have hnot := List.all_eq_true.mp (List.all_eq_true.mp hnone _ hclosed.2) _ hmem
        rw [List.isPrefixOf_iff_prefix.mpr hstart] at hnot
        cases hnot
    have hclass : isRevocationFailClosedRoute request.method
        (normalizeRoutePath request.url) = true := by
      rw [isRevocationFailClosedRoute, hmethod, hraw, decide_eq_true hclosed.2]
      rfl
    exact ⟨hclass, fun server reason hstale => not_admitted_of_stale hstale hclass⟩
  · have hspelled := h (by rw [hsensitive, Bool.or_true])
    have hclass : isSensitiveRoute (normalizeRoutePath request.url) = true := by
      rcases hspelled with heq | ⟨start, hmem, -, hstart⟩
      · rw [heq]
        exact hsensitive
      · rw [isSensitiveRoute, Bool.or_eq_true, List.any_eq_true]
        exact .inr ⟨start, hmem, decide_eq_true hstart⟩
    exact ⟨hclass, fun server hlimited => not_admitted_of_limited hlimited hclass⟩

/-- **The hook guards the routes of the requests that spell the paths of guarded routes as they are
written, and no others.** -/
theorem guarded_iff_spelled (router : Router) (request : Request) :
    (∀ route, router.dispatch request = some route → GuardedAs request route) ↔
      ∀ route, router.dispatch request = some route →
        (route.failClosed || route.sensitive) = true → Spelled request route :=
  ⟨fun h route hdispatch hguarded => spelled_of_guardedAs hdispatch hguarded (h route hdispatch),
    fun h route hdispatch => guardedAs_of_spelled hdispatch (h route hdispatch)⟩

/-! ## A router -/

def hexUnit (u : UInt16) : Option ℕ := Json.hexValue (charOfUnit u)

/-- Percent-decoding of a path whose escapes are ASCII characters. -/
def percentDecode : JsString → Option JsString
  | [] => some []
  | [u] => if u = 0x25 then none else some [u]
  | [u, v] => if u = 0x25 ∨ v = 0x25 then none else some [u, v]
  | u :: v :: w :: rest =>
    if u = 0x25 then do
      let code := 16 * (← hexUnit v) + (← hexUnit w)
      if code < 0x80 then return UInt16.ofNat code :: (← percentDecode rest) else none
    else (percentDecode (v :: w :: rest)).map (u :: ·)

theorem percentDecode_cons {u : UInt16} (hu : u ≠ 0x25) (rest : JsString) :
    percentDecode (u :: rest) = (percentDecode rest).map (u :: ·) := by
  cases rest with
  | nil => simp [percentDecode, hu]
  | cons v rest =>
    cases rest with
    | nil =>
      by_cases hv : v = 0x25
      · simp [percentDecode, hu, hv]
      · simp [percentDecode, hu, hv]
    | cons w rest => rw [percentDecode, if_neg hu]

theorem percentDecode_plain {front : JsString} (h : ∀ u ∈ front, u ≠ 0x25) (rest : JsString) :
    percentDecode (front ++ rest) = (percentDecode rest).map (front ++ ·) := by
  induction front with
  | nil => rw [List.nil_append]; exact Option.map_id'.symm
  | cons u front ih =>
    rw [List.cons_append, percentDecode_cons (h u List.mem_cons_self),
      ih fun v hv => h v (List.mem_cons_of_mem u hv), Option.map_map]
    rfl

/-- A plain path has neither an escape nor the start of a query. -/
theorem plain_units (h : isPlainPath path = true) : ∀ u ∈ path, u ≠ 0x25 ∧ u ≠ 0x3F := by
  intro u hu
  rw [isPlainPath, Bool.and_eq_true, List.all_eq_true] at h
  have hplain := h.2 u hu
  constructor
  · rintro rfl
    exact absurd hplain (by decide)
  · rintro rfl
    exact absurd hplain (by decide)

theorem normalizeRoutePath_plain (h : isPlainPath path = true) (rest : JsString) :
    normalizeRoutePath (path ++ rest) = path ++ normalizeRoutePath rest :=
  List.takeWhile_append_of_pos fun u hu => decide_eq_true (plain_units h u hu).2

def findRoute (method path : JsString) : Option Route :=
  routes.find? fun route =>
    (method = js route.method || method = js "HEAD" && route.method = "GET") &&
      fits (js route.path) path

theorem findRoute_spec {method : JsString} (h : findRoute method path = some route) :
    route ∈ routes ∧ (method = js route.method ∨ method = js "HEAD" ∧ route.method = "GET") ∧
      fits (js route.path) path = true := by
  have hspec := List.find?_some h
  rw [Bool.and_eq_true, Bool.or_eq_true, Bool.and_eq_true, decide_eq_true_eq, decide_eq_true_eq,
    decide_eq_true_eq] at hspec
  exact ⟨List.mem_of_find?_eq_some h, hspec.1, hspec.2⟩

/-- A router for paths whose escapes are ASCII characters. -/
def decodingRouter : Router where
  decodedPath url := percentDecode (normalizeRoutePath url)
  find := findRoute
  decodes_plain path query hplain hquery := by
    have hnone : normalizeRoutePath query = [] := by
      rcases hquery with rfl | hhead
      · rfl
      · cases query with
        | nil => rfl
        | cons u rest =>
          obtain rfl := Option.some.inj hhead
          rfl
    have hdecode := percentDecode_plain (fun u hu => (plain_units hplain u hu).1) []
    rw [normalizeRoutePath_plain hplain, hnone, hdecode, percentDecode, Option.map_some,
      List.append_nil]
  keeps_plain front rest path hplain hpath := by
    rw [normalizeRoutePath_plain hplain,
      percentDecode_plain fun u hu => (plain_units hplain u hu).1] at hpath
    obtain ⟨decoded, -, rfl⟩ := Option.map_eq_some_iff.mp hpath
    exact List.prefix_append front decoded
  find_mem _ _ _ h := (findRoute_spec h).1
  find_method _ _ _ h := (findRoute_spec h).2.1
  find_fits _ _ _ h := (findRoute_spec h).2.2

/-- A request that spells one letter of the path as an escape. -/
def escapedRequest : Request :=
  ⟨js "POST", js "/v1/vault/%69nit", js "127.0.0.1", js "1", none⟩

theorem dispatch_escapedRequest :
    decodingRouter.dispatch escapedRequest = some ⟨"POST", "/v1/vault/init"⟩ := by decide

/-- The handler of a guarded route gets the request, and the hook does not see the route. -/
theorem escaped_path_unguarded : ¬∀ route,
    decodingRouter.dispatch escapedRequest = some route → GuardedAs escapedRequest route := by
  intro h
  have hclosed := (h _ dispatch_escapedRequest).failClosed (by decide)
  exact absurd hclosed.1 (by decide)

end MemphisOS.Http

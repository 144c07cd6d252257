import AsioLearn.Lib.Path
import Mathlib

/-!
# What the chat server answers to a plain request (`http_session.cc`)

`handle_request` with `path_cat` and `mime_type`, from the request the parser made to the response.
Strings are lists of characters.

* The file system is a function from the path handed to `open` to what opening it gives; `open` is
  handed `path.c_str()`, which ends at the first null character. `BOOST_MSVC` is not defined.
* `req.keep_alive()` is a field of the request, `msg.keep_alive()` of the response.
* `BOOST_BEAST_VERSION_STRING` is the parameter `version`.

Results:
* `reads_below_root_iff`: an answer tells nothing of the files outside `doc_root`, unless `doc_root`
  is empty;
* `head_is_get`: the answer to a `HEAD` is that to the `GET` without its body if that is a file, and
  with it if it is an error; the length is always that of the body of the `GET`;
* `mimeType_name`: the type of a file depends on its name only, and not on case.
-/

namespace AsioLearn.WebSocket

open Lib.Path

/-- `http::verb`, as far as the server tells verbs apart. -/
inductive Verb where
  | get
  | head
  | other
  deriving DecidableEq, Repr

/-- `http::request<http::string_body>`. -/
structure Request where
  method : Verb
  target : List Char
  version : Nat
  keepAlive : Bool
  deriving DecidableEq, Repr

/-- `http::status`. -/
inductive Status where
  | ok
  | badRequest
  | notFound
  | internalServerError
  deriving DecidableEq, Repr

/-- The body of a response. -/
inductive Body where
  | empty
  | string (text : List Char)
  | file (content : List UInt8)
  deriving DecidableEq, Repr

/-- Bytes of the body. -/
def Body.size : Body → Nat
  | .empty => 0
  | .string text => text.length
  | .file content => content.length

/-- `http::response`. -/
structure Response where
  status : Status
  version : Nat
  server : List Char
  contentType : List Char
  keepAlive : Bool
  contentLength : Nat
  body : Body
  deriving DecidableEq, Repr

/-- What `body.open` does. -/
inductive Opened where
  | file (content : List UInt8)
  | noSuchFile
  | error (message : List Char)
  deriving DecidableEq, Repr

/-- The files, by the path they are opened with. -/
abbrev FileSystem := List Char → Opened

/-! ## `mime_type` -/

/-- `beast::iequals`. -/
def iequals (a b : List Char) : Bool := a.map Char.toLower == b.map Char.toLower

/-- `ext`: the path from the last dot on, or nothing. -/
def extension (path : List Char) : List Char :=
  if '.' ∈ path then '.' :: (path.reverse.takeWhile (· ≠ '.')).reverse else []

/-- The comparisons of `mime_type`, in their order. -/
def mimeTypes : List (String × String) :=
  [(".htm", "text/html"), (".html", "text/html"), (".php", "text/html"), (".css", "text/css"),
    (".txt", "text/plain"), (".js", "application/javascript"), (".json", "application/json"),
    (".xml", "application/xml"), (".swf", "application/x-shockwave-flash"),
    (".flv", "video/x-flv"), (".png", "image/png"), (".jpe", "image/jpeg"),
    (".jpeg", "image/jpeg"), (".jpg", "image/jpeg"), (".gif", "image/gif"), (".bmp", "image/bmp"),
    (".ico", "image/vnd.microsoft.icon"), (".tiff", "image/tiff"), (".tif", "image/tiff"),
    (".svg", "image/svg+xml"), (".svgz", "image/svg+xml")]

/-- `mime_type`. -/
def mimeType (path : List Char) : List Char :=
  let ext := extension path
  match mimeTypes.find? fun t => iequals ext t.1.toList with
  | some t => t.2.toList
  | none => "application/text".toList

/-! ## `handle_request` -/

/-- `path_cat`. -/
def pathCat (base path : List Char) : List Char :=
  if base = [] then path
  else (if base.getLast? = some '/' then base.dropLast else base) ++ path

/-- `path.c_str()`, as `open` reads it. -/
def cStr (path : List Char) : List Char := path.takeWhile (· ≠ Char.ofNat 0)

/-- The response of the lambdas `bad_request`, `not_found` and `server_error`. -/
def errorResponse (version : List Char) (req : Request) (status : Status) (text : List Char) :
    Response where
  status := status
  version := req.version
  server := version
  contentType := "text/html".toList
  keepAlive := req.keepAlive
  contentLength := text.length
  body := .string text

/-- `bad_request`. -/
def badRequest (version : List Char) (req : Request) (why : String) : Response :=
  errorResponse version req .badRequest why.toList

/-- `not_found`. -/
def notFound (version : List Char) (req : Request) (target : List Char) : Response :=
  errorResponse version req .notFound
    ("The resource '".toList ++ target ++ "' was not found.".toList)

/-- `server_error`. -/
def serverError (version : List Char) (req : Request) (what : List Char) : Response :=
  errorResponse version req .internalServerError
    ("An error occurred: '".toList ++ what ++ "'".toList)

/-- The path to the requested file. -/
def filePath (docRoot target : List Char) : List Char :=
  let path := pathCat docRoot target
  if target.getLast? = some '/' then path ++ "index.html".toList else path

/-- `handle_request`. -/
def handleRequest (version : List Char) (fs : FileSystem) (docRoot : List Char) (req : Request) :
    Response :=
  if req.method ≠ .get ∧ req.method ≠ .head then badRequest version req "Unknown HTTP-method"
  else if req.target = [] ∨ req.target.head? ≠ some '/' ∨ ['.', '.'] <:+: req.target then
    badRequest version req "Illegal request-target"
  else
    let path := filePath docRoot req.target
    match fs (cStr path) with
    | .noSuchFile => notFound version req req.target
    | .error message => serverError version req message
    | .file content =>
      { status := .ok, version := req.version, server := version, contentType := mimeType path,
        keepAlive := req.keepAlive, contentLength := content.length,
        body := if req.method = .head then .empty else .file content }

/-- Methods and targets that are looked up. -/
def Request.Legal (req : Request) : Prop :=
  (req.method = .get ∨ req.method = .head) ∧ req.target.head? = some '/' ∧
    ¬ ['.', '.'] <:+: req.target

/-! ## Legal and illegal requests -/

theorem handleRequest_legal {version docRoot : List Char} {fs : FileSystem} {req : Request}
    (h : req.Legal) :
    handleRequest version fs docRoot req =
      match fs (cStr (filePath docRoot req.target)) with
      | .noSuchFile => notFound version req req.target
      | .error message => serverError version req message
      | .file content =>
        { status := .ok, version := req.version, server := version,
          contentType := mimeType (filePath docRoot req.target), keepAlive := req.keepAlive,
          contentLength := content.length,
          body := if req.method = .head then .empty else .file content } := by
  obtain ⟨hm, ht, hd⟩ := h
  have hne : req.target ≠ [] := fun h0 => by
    rw [h0] at ht
    cases ht
  unfold handleRequest
  rw [if_neg (by rcases hm with hm | hm <;> simp [hm]), if_neg (by simp [hne, ht, hd])]

/-- The other requests are answered without a look at the files. -/
theorem handleRequest_illegal {req : Request} (h : ¬ req.Legal) (version docRoot : List Char)
    (fs : FileSystem) :
    handleRequest version fs docRoot req = badRequest version req
      (if req.method = .other then "Unknown HTTP-method" else "Illegal request-target") := by
  unfold handleRequest
  by_cases hm : req.method = .other
  · rw [if_pos (by rw [hm]; exact ⟨nofun, nofun⟩), if_pos hm]
  · have hmethod : req.method = .get ∨ req.method = .head := by
      cases hreq : req.method with
      | other => exact absurd hreq hm
      | get => exact Or.inl rfl
      | head => exact Or.inr rfl
    have htarget : req.target = [] ∨ req.target.head? ≠ some '/' ∨ ['.', '.'] <:+: req.target := by
      by_contra hgood
      rw [not_or, not_or, not_not] at hgood
      exact h ⟨hmethod, hgood.2⟩
    rw [if_neg (not_and_or.mpr (hmethod.imp not_not.mpr not_not.mpr)), if_pos htarget, if_neg hm]

/-! ## Where the file is -/

theorem cStr_append {a b : List Char} (h : Char.ofNat 0 ∉ a) : cStr (a ++ b) = a ++ cStr b := by
  unfold cStr
  exact List.takeWhile_append_of_pos fun c hc => by
    rw [decide_eq_true_eq]
    rintro rfl
    exact h hc

/-- `doc_root` without a separator at its end. -/
def trimmed (docRoot : List Char) : List Char :=
  if docRoot.getLast? = some '/' then docRoot.dropLast else docRoot

/-- The path is `doc_root` and a separator, and there are no two dots in a row after that. -/
theorem filePath_eq {docRoot : List Char} {req : Request} (h : req.Legal) (hroot : docRoot ≠ []) :
    ∃ rest, filePath docRoot req.target = trimmed docRoot ++ '/' :: rest ∧
      ¬ ['.', '.'] <:+: rest := by
  obtain ⟨-, ht, hd⟩ := h
  cases htarget : req.target with
  | nil =>
    rw [htarget] at ht
    cases ht
  | cons c rest =>
    rw [htarget] at ht hd
    obtain rfl := Option.some.inj ht
    unfold filePath pathCat
    rw [if_neg hroot]
    by_cases hend : ('/' :: rest).getLast? = some '/'
    · refine ⟨rest ++ "index.html".toList, ?_, ?_⟩
      · rw [if_pos hend, List.append_assoc]
        rfl
      · obtain ⟨front, hfront⟩ := List.getLast?_eq_some_iff.mp hend
        rw [hfront] at hd
        have hall := not_infix_append (d := '.') (by decide) hd
          (b := "index.html".toList) (by decide)
        rw [List.append_cons, ← hfront] at hall
        exact fun hin => hall (List.infix_cons hin)
    · exact ⟨rest, if_neg hend, fun hin => hd (List.infix_cons hin)⟩

theorem resolve_trimmed (cwd : List (List Char)) {docRoot : List Char} (h : docRoot ≠ []) :
    resolve '/' '.' cwd docRoot = if trimmed docRoot = [] then [] else
      resolve '/' '.' cwd (trimmed docRoot) := by
  unfold trimmed
  by_cases hend : docRoot.getLast? = some '/'
  · obtain ⟨front, rfl⟩ := List.getLast?_eq_some_iff.mp hend
    rw [if_pos hend, List.dropLast_concat]
    by_cases hfront : front = []
    · rw [if_pos hfront, hfront]
      rfl
    · rw [if_neg hfront, resolve_trailing '/' '.' cwd hfront]
  · rw [if_neg hend, if_neg h]

/-- What is opened for a legal request is below `doc_root`. -/
theorem opened_below {docRoot : List Char} {req : Request} (h : req.Legal) (hroot : docRoot ≠ [])
    (hnul : Char.ofNat 0 ∉ docRoot) (cwd : List (List Char)) :
    resolve '/' '.' cwd docRoot <:+ resolve '/' '.' cwd (cStr (filePath docRoot req.target)) := by
  obtain ⟨rest, hpath, hdots⟩ := filePath_eq h hroot
  have hbase : Char.ofNat 0 ∉ trimmed docRoot := fun hmem => hnul (by
    unfold trimmed at hmem
    split_ifs at hmem
    · exact List.mem_of_mem_dropLast hmem
    · exact hmem)
  have hcut : cStr ('/' :: rest) = '/' :: cStr rest := rfl
  rw [hpath, cStr_append hbase, hcut, resolve_trimmed cwd hroot]
  split_ifs with htrim
  · exact List.nil_suffix
  · refine resolve_below cwd htrim fun hmem => hdots ?_
    exact (infix_of_mem_splitOn hmem).trans (List.takeWhile_prefix _).isInfix

/-- **The document root confines the answers.** Two file systems that agree below `doc_root` get the
same answers to all requests, exactly if `doc_root` is not empty (an empty one serves the root
directory, wherever the server runs). -/
theorem reads_below_root_iff {docRoot : List Char} (hnul : Char.ofNat 0 ∉ docRoot)
    (cwd : List (List Char)) :
    (∀ fs fs' : FileSystem,
      (∀ path, resolve '/' '.' cwd docRoot <:+ resolve '/' '.' cwd path → fs path = fs' path) →
        ∀ version req,
          handleRequest version fs docRoot req = handleRequest version fs' docRoot req) ↔
      docRoot ≠ [] ∨ cwd = [] := by
  constructor
  · intro hall
    by_contra hcwd
    obtain rfl := not_not.mp (not_or.mp hcwd).1
    -- "/." is the root directory, which is not below the working directory
    have hsame := hall (fun _ => .file [])
      (fun path => if cwd <:+ resolve '/' '.' cwd path then .file [] else .noSuchFile)
      (fun path hpath => (if_pos hpath).symm) [] ⟨.get, ['/', '.'], 11, true⟩
    have hlegal : Request.Legal ⟨.get, ['/', '.'], 11, true⟩ := ⟨Or.inl rfl, rfl, by decide⟩
    rw [handleRequest_legal hlegal, handleRequest_legal hlegal] at hsame
    have hout : ¬ cwd <:+ resolve '/' '.' cwd (cStr (filePath [] ['/', '.'])) :=
      fun hs => hcwd (Or.inr (List.suffix_nil.mp hs))
    rw [if_neg hout] at hsame
    exact absurd (congrArg Response.status hsame) (by decide)
  · intro hor fs fs' hagree version req
    by_cases hlegal : req.Legal
    · rw [handleRequest_legal hlegal, handleRequest_legal hlegal]
      rw [hagree]
      by_cases hroot : docRoot = []
      · rw [hroot, hor.resolve_left (not_not.mpr hroot)]
        exact List.nil_suffix
      · exact opened_below hlegal hroot hnul cwd
    · rw [handleRequest_illegal hlegal, handleRequest_illegal hlegal]

/-- The root of the usage message. -/
theorem reads_below_root_dot :
    (∀ fs fs' : FileSystem,
      (∀ path, resolve '/' '.' ["home".toList] ['.'] <:+ resolve '/' '.' ["home".toList] path →
        fs path = fs' path) →
        ∀ version req, handleRequest version fs ['.'] req = handleRequest version fs' ['.'] req) ↔
      ['.'] ≠ [] ∨ ["home".toList] = [] :=
  reads_below_root_iff (by decide) ["home".toList]

/-! ## `HEAD` and `GET` -/

/-- **`HEAD` and `GET`.** The two answers are the same but for the body of a file, which is left out
of the answer to `HEAD`; the body of an error is not. The length given is that of the body of the
answer to `GET`, and the request's version and `keep_alive` are kept. -/
theorem head_is_get (version docRoot : List Char) (fs : FileSystem) (req : Request) :
    let get := handleRequest version fs docRoot { req with method := .get }
    handleRequest version fs docRoot { req with method := .head } =
        (if get.status = .ok then { get with body := .empty } else get) ∧
      get.body.size = get.contentLength ∧ get.version = req.version ∧
        get.keepAlive = req.keepAlive := by
  intro get
  by_cases hlegal : Request.Legal { req with method := .get }
  · have hhead : Request.Legal { req with method := .head } := ⟨Or.inr rfl, hlegal.2⟩
    have hget : get = _ := handleRequest_legal hlegal
    rw [handleRequest_legal hhead, hget]
    dsimp only
    cases fs (cStr (filePath docRoot req.target)) <;> exact ⟨rfl, rfl, rfl, rfl⟩
  · have hhead : ¬ Request.Legal { req with method := .head } :=
      fun h => hlegal ⟨Or.inl rfl, h.2⟩
    have hget : get = _ := handleRequest_illegal hlegal version docRoot fs
    rw [handleRequest_illegal hhead, hget]
    exact ⟨rfl, rfl, rfl, rfl⟩

/-! ## Types of files -/

/-- No other character becomes one that is no letter. -/
theorem toLower_eq_iff {c d : Char} (hd : d.isAlpha = false) : c.toLower = d ↔ c = d := by
  constructor
  · rintro rfl
    rw [Char.isAlpha_toLower_eq_isAlpha] at hd
    refine (Char.toLower_eq_of_not_isUpper fun hup => ?_).symm
    unfold Char.isAlpha at hd
    rw [hup] at hd
    cases hd
  · rintro rfl
    refine Char.toLower_eq_of_not_isUpper fun hup => ?_
    unfold Char.isAlpha at hd
    rw [hup] at hd
    cases hd

theorem mem_map_toLower {d : Char} (hd : d.isAlpha = false) {path : List Char} :
    d ∈ path.map Char.toLower ↔ d ∈ path := by
  rw [List.mem_map]
  constructor
  · rintro ⟨c, hc, h⟩
    rwa [← (toLower_eq_iff hd).mp h]
  · exact fun h => ⟨d, h, (toLower_eq_iff hd).mpr rfl⟩

theorem extension_map (path : List Char) :
    (extension path).map Char.toLower = extension (path.map Char.toLower) := by
  have hdot : ('.').isAlpha = false := by decide
  have htake : (path.map Char.toLower).reverse.takeWhile (· ≠ '.') =
      (path.reverse.takeWhile (· ≠ '.')).map Char.toLower := by
    rw [← List.map_reverse, List.takeWhile_map]
    congr 2
    funext c
    simp [toLower_eq_iff hdot]
  unfold extension
  by_cases h : '.' ∈ path
  · rw [if_pos h, if_pos ((mem_map_toLower hdot).mpr h), htake, List.map_cons, List.map_reverse]
    rfl
  · rw [if_neg h, if_neg fun hm => h ((mem_map_toLower hdot).mp hm)]
    rfl

/-- Only the extension matters, and not its case. -/
theorem mimeType_congr {path path' : List Char}
    (h : (extension path).map Char.toLower = (extension path').map Char.toLower) :
    mimeType path = mimeType path' := by
  unfold mimeType iequals
  dsimp only
  rw [h]

/-- A path that has its last dot in the name of a directory is of no known type. -/
theorem mimeType_of_slash {path : List Char} (h : '/' ∈ extension path) :
    mimeType path = "application/text".toList := by
  have hslash : ('/').isAlpha = false := by decide
  have hnone : mimeTypes.find? (fun t => iequals (extension path) t.1.toList) = none := by
    rw [List.find?_eq_none]
    intro t ht heq
    have hmem : '/' ∈ t.1.toList.map Char.toLower := by
      rw [← eq_of_beq heq]
      exact (mem_map_toLower hslash).mpr h
    have hall : ∀ t ∈ mimeTypes, '/' ∉ t.1.toList.map Char.toLower := by decide
    exact hall t ht hmem
  unfold mimeType
  dsimp only
  rw [hnone]

theorem extension_of_mem {dir name : List Char} (h : '.' ∈ name) :
    extension (dir ++ '/' :: name) = extension name := by
  have hcut : ((dir ++ '/' :: name).reverse.takeWhile (· ≠ '.')) =
      name.reverse.takeWhile (· ≠ '.') := by
    rw [List.reverse_append, List.reverse_cons, List.append_assoc, List.takeWhile_append,
      if_neg]
    intro hlen
    have hall := (List.takeWhile_prefix (fun c => decide (c ≠ '.'))
      (l := name.reverse)).eq_of_length hlen
    have hdot := List.all_takeWhile (p := fun c => decide (c ≠ '.')) (l := name.reverse)
    rw [hall, List.all_eq_true] at hdot
    exact of_decide_eq_true (hdot '.' (List.mem_reverse.mpr h)) rfl
  unfold extension
  rw [if_pos h, if_pos (List.mem_append_right dir (List.mem_cons_of_mem '/' h)), hcut]

theorem extension_of_not_mem {path : List Char} (h : '.' ∉ path) : extension path = [] := if_neg h

theorem mimeType_dir (dir : List Char) {name : List Char} :
    mimeType (dir ++ '/' :: name) = mimeType name := by
  by_cases hname : '.' ∈ name
  · exact mimeType_congr (by rw [extension_of_mem hname])
  · by_cases hdir : '.' ∈ dir
    · have hslash : '/' ∈ extension (dir ++ '/' :: name) := by
        unfold extension
        rw [if_pos (List.mem_append_left _ hdir), List.reverse_append, List.reverse_cons,
          List.append_assoc, List.takeWhile_append_of_pos]
        · simp
        · intro c hc
          rw [decide_eq_true_eq]
          rintro rfl
          exact hname (List.mem_reverse.mp hc)
      have hnone : mimeType [] = "application/text".toList := by decide
      rw [mimeType_of_slash hslash, ← hnone]
      exact mimeType_congr (by rw [extension_of_not_mem hname]; rfl)
    · refine mimeType_congr ?_
      rw [extension_of_not_mem hname, extension_of_not_mem]
      simp [hname, hdir]

/-- **The type of a file is that of its name**: the directories it is in, with or without dots, and
case make no difference. -/
theorem mimeType_name (dir dir' : List Char) {name name' : List Char}
    (hcase : iequals name name' = true) :
    mimeType (dir ++ '/' :: name) = mimeType (dir' ++ '/' :: name') := by
  rw [mimeType_dir, mimeType_dir]
  refine mimeType_congr ?_
  rw [extension_map, extension_map, eq_of_beq hcase]

/-- `/v1.2/Logo.PNG` and `/logo.png`. -/
theorem mimeType_name_logo :
    iequals "Logo.PNG".toList "logo.png".toList = true ∧
      mimeType ("/v1.2".toList ++ '/' :: "Logo.PNG".toList) =
        mimeType ([] ++ '/' :: "logo.png".toList) :=
  ⟨by decide, mimeType_name "/v1.2".toList [] (by decide)⟩

end AsioLearn.WebSocket

import Ultimate1541.ManifestValueProofs

/-! # Where a recovery's files are fetched from

    A manifest names its files below its own location, and a server may redirect
    the manifest.  `recoveryFileUrl` and `recoveryUrlResolve` cut a URL at its
    scheme, at the `?` or `#` behind its path and at the last slash in front of
    that; they are the source's, with what they print as the answer, and `none`
    where it does not fit.

    `HttpUrl` is a URL in its parts.  Every URL with one of the two schemes is
    one (`HttpUrl.exists_of_scheme`), a redirect leads to another one
    (`resolve_scheme`), and a file is below it in the directory of its path
    (`fileUrl_text`). -/

namespace RecoveryUrl

open RecoveryManifest

/-! ## The functions -/

/-- `"http://"`. -/
def http : List UInt8 := [104, 116, 116, 112, 58, 47, 47]

/-- `"https://"`. -/
def https : List UInt8 := [104, 116, 116, 112, 115, 58, 47, 47]

/-- `scheme_len`. -/
def schemeLen (url : List UInt8) : Nat :=
  if http.isPrefixOf url then 7 else if https.isPrefixOf url then 8 else 0

/-- `strcspn`. -/
def cspn (url stop : List UInt8) : Nat := (url.takeWhile fun c => !stop.contains c).length

/-- `snprintf` into `size` bytes: the text if all of it fits, and its length fits
    an `int`. -/
def printed (size : Nat) (text : List UInt8) : Option (List UInt8) :=
  if text.length < size ∧ text.length < 2 ^ 31 then some text else none

/-- `while (manifest_url[dir - 1] != '/') dir--`; there is a slash. -/
def dirLoop (url : List UInt8) : Nat → Nat
  | 0 => 0
  | dir + 1 => if url.getD dir 0 = 47 then dir + 1 else dirLoop url dir

/-- `recovery_file_url`. -/
def recoveryFileUrl (size : Nat) (manifestUrl name : List UInt8) : Option (List UInt8) :=
  let stop := cspn manifestUrl [63, 35]
  let s := schemeLen manifestUrl
  -- `memchr` between the host and the end of the path
  if 47 ∈ (manifestUrl.drop s).take (stop - s) then
    printed size (manifestUrl.take (dirLoop manifestUrl stop) ++ name)
  else printed size (manifestUrl.take stop ++ [47] ++ name)

/-- `recovery_url_resolve`. -/
def recoveryUrlResolve (size : Nat) (base location : List UInt8) : Option (List UInt8) :=
  if schemeLen location ≠ 0 then printed size location
  else if location.head? = some 47 ∧ location.tail.head? = some 47 then
    let s := schemeLen base
    printed size (base.take (if s ≠ 0 then s - 2 else 0) ++ location)
  else if location.head? = some 47 then
    let s := schemeLen base
    printed size (base.take (s + cspn (base.drop s) [47, 63, 35]) ++ location)
  else recoveryFileUrl size base location

/-- A manifest URL: where the request goes, and where a redirect of that, read
    against a manifest URL, leads. -/
inductive Reached (base : List UInt8) : List UInt8 → Prop
  | base : Reached base base
  | redirect {url url' : List UInt8} {size : Nat} {location : List UInt8} : Reached base url →
      recoveryUrlResolve size url location = some url' → Reached base url'

/-! ## URLs in parts -/

/-- A URL: a scheme, an authority up to the first `/`, `?` or `#`, a path that is
    empty or begins with a slash, and from the `?` or `#` on the rest. -/
structure HttpUrl where
  scheme : List UInt8
  authority : List UInt8
  path : List UInt8
  rest : List UInt8
  scheme_eq : scheme = http ∨ scheme = https
  authority_plain : ∀ c ∈ authority, c ≠ 47 ∧ c ≠ 63 ∧ c ≠ 35
  path_head : path = [] ∨ path.head? = some 47
  path_plain : ∀ c ∈ path, c ≠ 63 ∧ c ≠ 35
  rest_head : rest = [] ∨ rest.head? = some 63 ∨ rest.head? = some 35

/-- The text of a URL. -/
def HttpUrl.text (u : HttpUrl) : List UInt8 := u.scheme ++ u.authority ++ u.path ++ u.rest

/-- The directory of a path: all of it up to its last slash. -/
def directory (path : List UInt8) : List UInt8 :=
  if path = [] then [47] else (path.reverse.dropWhile (· != 47)).reverse

theorem printed_eq_some {size : Nat} {text out : List UInt8} (h : printed size text = some out) :
    out = text := by
  rw [printed] at h
  split at h
  · exact (Option.some.inj h).symm
  · exact nomatch h

theorem schemeLen_http (url : List UInt8) : schemeLen (http ++ url) = 7 := rfl

theorem schemeLen_https (url : List UInt8) : schemeLen (https ++ url) = 8 := rfl

/-- The length of the scheme in front. -/
theorem schemeLen_append {scheme : List UInt8} (h : scheme = http ∨ scheme = https)
    (url : List UInt8) : schemeLen (scheme ++ url) = scheme.length := by
  rcases h with rfl | rfl
  · exact schemeLen_http url
  · exact schemeLen_https url

/-- A URL with a scheme begins with it. -/
theorem scheme_of_ne_zero {url : List UInt8} (h : schemeLen url ≠ 0) :
    ∃ scheme rest, (scheme = http ∨ scheme = https) ∧ url = scheme ++ rest := by
  rw [schemeLen] at h
  by_cases h7 : http.isPrefixOf url = true
  · obtain ⟨rest, rfl⟩ := List.isPrefixOf_iff_prefix.mp h7
    exact ⟨http, rest, Or.inl rfl, rfl⟩
  · rw [if_neg h7] at h
    by_cases h8 : https.isPrefixOf url = true
    · obtain ⟨rest, rfl⟩ := List.isPrefixOf_iff_prefix.mp h8
      exact ⟨https, rest, Or.inr rfl, rfl⟩
    · rw [if_neg h8] at h
      exact absurd rfl h

theorem schemeLen_ne_zero {scheme : List UInt8} (h : scheme = http ∨ scheme = https)
    (url : List UInt8) : schemeLen (scheme ++ url) ≠ 0 := by
  rcases h with rfl | rfl
  · rw [schemeLen_http]
    decide
  · rw [schemeLen_https]
    decide

/-- No scheme holds a `?` or `#`. -/
theorem scheme_plain {scheme : List UInt8} (h : scheme = http ∨ scheme = https) :
    ∀ c ∈ scheme, c ≠ 63 ∧ c ≠ 35 := by
  rcases h with rfl | rfl
  · decide +kernel
  · decide +kernel

/-- A text in front of the first of some characters, or of the end. -/
theorem takeWhile_stop {front rest stop : List UInt8} (hfront : ∀ c ∈ front, c ∉ stop)
    (hrest : rest = [] ∨ ∃ c ∈ stop, rest.head? = some c) :
    (front ++ rest).takeWhile (fun c => !stop.contains c) = front := by
  have hall : ∀ c ∈ front, (!stop.contains c) = true := by
    intro c hc
    rw [Bool.not_eq_true', List.contains_eq_mem, decide_eq_false_iff_not]
    exact hfront c hc
  rw [List.takeWhile_append_of_pos hall]
  rcases hrest with rfl | ⟨c, hc, hhead⟩
  · rw [List.takeWhile_nil, List.append_nil]
  · obtain ⟨rest, rfl⟩ := List.head?_eq_some_iff.mp hhead
    have hno : ¬ (!stop.contains c) = true := by
      rw [Bool.not_eq_true', List.contains_eq_mem, decide_eq_false_iff_not]
      exact fun h => h hc
    rw [List.takeWhile_cons_of_neg (p := fun c => !stop.contains c) hno, List.append_nil]

theorem HttpUrl.rest_stop (u : HttpUrl) :
    u.rest = [] ∨ ∃ c ∈ ([63, 35] : List UInt8), u.rest.head? = some c := by
  rcases u.rest_head with h | h | h
  · exact Or.inl h
  · exact Or.inr ⟨63, List.mem_cons_self, h⟩
  · exact Or.inr ⟨35, List.mem_cons_of_mem _ List.mem_cons_self, h⟩

theorem mem_pair {c a b : UInt8} (h : c ≠ a ∧ c ≠ b) : c ∉ [a, b] := by
  rw [List.mem_pair]
  exact fun hc => hc.elim h.1 h.2

/-- The path of a URL ends at the first `?` or `#`. -/
theorem HttpUrl.cspn_text (u : HttpUrl) :
    cspn u.text [63, 35] = (u.scheme ++ u.authority ++ u.path).length := by
  rw [cspn, HttpUrl.text, takeWhile_stop (fun c hc => ?_) u.rest_stop]
  rcases List.mem_append.mp hc with hc | hc
  · rcases List.mem_append.mp hc with hc | hc
    · exact mem_pair (scheme_plain u.scheme_eq c hc)
    · exact mem_pair (u.authority_plain c hc).2
  · exact mem_pair (u.path_plain c hc)

theorem HttpUrl.schemeLen_text (u : HttpUrl) : schemeLen u.text = u.scheme.length := by
  rw [HttpUrl.text, List.append_assoc, List.append_assoc]
  exact schemeLen_append u.scheme_eq _

/-- **PARTS**: a URL with one of the schemes has them. -/
theorem HttpUrl.exists_of_scheme {url : List UInt8} (h : schemeLen url ≠ 0) :
    ∃ u : HttpUrl, u.text = url := by
  obtain ⟨scheme, host, hscheme, rfl⟩ := scheme_of_ne_zero h
  let delim : UInt8 → Bool := fun c => c != 47 && c != 63 && c != 35
  let query : UInt8 → Bool := fun c => c != 63 && c != 35
  have hdelim : ∀ {c}, delim c = true → c ≠ 47 ∧ c ≠ 63 ∧ c ≠ 35 := by
    intro c hc
    simpa [delim, and_assoc] using hc
  have hquery : ∀ {c}, query c = true → c ≠ 63 ∧ c ≠ 35 := by
    intro c hc
    simpa [query] using hc
  let behind := host.dropWhile delim
  -- what stops a scan is its first character behind
  have hstop : ∀ {p : UInt8 → Bool} {l : List UInt8}, l.dropWhile p = [] ∨
      ∃ c, (l.dropWhile p).head? = some c ∧ p c = false := by
    intro p l
    by_cases hnil : l.dropWhile p = []
    · exact Or.inl hnil
    · refine Or.inr ⟨(l.dropWhile p).head hnil, List.head?_eq_some_head hnil, ?_⟩
      exact List.head_dropWhile_not p hnil
  refine ⟨⟨scheme, host.takeWhile delim, behind.takeWhile query, behind.dropWhile query, hscheme,
    fun c hc => hdelim (List.mem_takeWhile_imp hc), ?_,
    fun c hc => hquery (List.mem_takeWhile_imp hc), ?_⟩, ?_⟩
  · cases hb : behind with
    | nil => exact Or.inl rfl
    | cons c behind' =>
        by_cases hc : query c = true
        · refine Or.inr ?_
          rw [List.takeWhile_cons_of_pos hc, List.head?_cons]
          have hfirst : delim c = false := by
            rcases hstop (p := delim) (l := host) with hnil | ⟨d, hd, hdelim'⟩
            · exact nomatch hnil.symm.trans hb
            · rw [show host.dropWhile delim = c :: behind' from hb, List.head?_cons] at hd
              cases hd
              exact hdelim'
          have hq := hquery hc
          have : c = 47 := by
            by_contra hne
            have htrue : delim c = true := by
              simp [delim, hne, hq.1, hq.2]
            rw [hfirst] at htrue
            exact nomatch htrue
          rw [this]
        · refine Or.inl ?_
          rw [List.takeWhile_cons_of_neg hc]
  · rcases hstop (p := query) (l := behind) with hnil | ⟨c, hc, hno⟩
    · exact Or.inl hnil
    · refine Or.inr ?_
      by_cases h63 : c = 63
      · exact Or.inl (h63 ▸ hc)
      · refine Or.inr ?_
        have : c = 35 := by
          by_contra h35
          have htrue : query c = true := by simp [query, h63, h35]
          rw [hno] at htrue
          exact nomatch htrue
        rw [← this]
        exact hc
  · show scheme ++ host.takeWhile delim ++ behind.takeWhile query ++ behind.dropWhile query
      = scheme ++ host
    rw [List.append_assoc, List.takeWhile_append_dropWhile, List.append_assoc,
      List.takeWhile_append_dropWhile]

/-! ## Below a directory -/

/-- The loop goes back to the last slash. -/
theorem take_dirLoop (url : List UInt8) :
    ∀ dir ≤ url.length, url.take (dirLoop url dir) =
      ((url.take dir).reverse.dropWhile (· != 47)).reverse := by
  intro dir
  induction dir with
  | zero => exact fun _ => rfl
  | succ dir ih =>
      intro hdir
      have hget : url.getD dir 0 = url.get ⟨dir, hdir⟩ := List.getD_eq_getElem url 0 hdir
      have htake : url.take (dir + 1) = url.take dir ++ [url.get ⟨dir, hdir⟩] :=
        List.take_succ_eq_append_getElem hdir
      rw [dirLoop, hget]
      by_cases hslash : url.get ⟨dir, hdir⟩ = 47
      · have hstop : ¬ (url.get ⟨dir, hdir⟩ != 47) = true := by
          rw [hslash]
          decide
        rw [if_pos hslash, htake, List.reverse_append, List.reverse_singleton,
          List.singleton_append, List.dropWhile_cons_of_neg (p := (· != 47)) hstop, List.reverse_cons,
          List.reverse_reverse]
      · rw [if_neg hslash, ih (Nat.le_of_succ_le hdir), htake, List.reverse_append,
          List.reverse_singleton, List.singleton_append,
          List.dropWhile_cons_of_pos (p := (· != 47)) (bne_iff_ne.mpr hslash)]

/-- A slash is found before the front is reached. -/
theorem dropWhile_append_of_mem {xs ys : List UInt8} (h : 47 ∈ xs) :
    (xs ++ ys).dropWhile (· != 47) = xs.dropWhile (· != 47) ++ ys := by
  induction xs with
  | nil => exact nomatch h
  | cons c xs ih =>
      by_cases hc : c = 47
      · have hstop : ¬ (c != 47) = true := by
          rw [hc]
          decide
        rw [List.cons_append, List.dropWhile_cons_of_neg (p := (· != 47)) hstop, List.dropWhile_cons_of_neg (p := (· != 47)) hstop]
        rfl
      · have hpos : (c != 47) = true := bne_iff_ne.mpr hc
        have hmem : 47 ∈ xs := (List.mem_cons.mp h).resolve_left fun he => hc he.symm
        rw [List.cons_append, List.dropWhile_cons_of_pos (p := (· != 47)) hpos, List.dropWhile_cons_of_pos (p := (· != 47)) hpos,
          ih hmem]

/-- **A FILE** is below the directory of the manifest's path. -/
theorem fileUrl_text (u : HttpUrl) (size : Nat) (name : List UInt8) :
    recoveryFileUrl size u.text name =
      printed size (u.scheme ++ u.authority ++ directory u.path ++ name) := by
  have htake : u.text.take (u.scheme ++ u.authority ++ u.path).length
      = u.scheme ++ u.authority ++ u.path := List.take_left
  have hhost : (u.text.drop u.scheme.length).take
      ((u.scheme ++ u.authority ++ u.path).length - u.scheme.length) = u.authority ++ u.path := by
    rw [HttpUrl.text, List.append_assoc, List.append_assoc, List.drop_left, ← List.append_assoc,
      List.append_assoc, List.length_append, Nat.add_sub_cancel_left, List.take_left]
  rw [recoveryFileUrl, u.cspn_text, u.schemeLen_text, hhost]
  have hauth : 47 ∉ u.authority := fun h => (u.authority_plain 47 h).1 rfl
  rcases u.path_head with hnil | hhead
  · -- a host without a path
    have hno : 47 ∉ u.authority ++ u.path := by
      rw [hnil, List.append_nil]
      exact hauth
    rw [if_neg hno, htake, hnil, directory, if_pos rfl, List.append_nil]
  · have hslash : 47 ∈ u.path := by
      obtain ⟨p, hp⟩ := List.head?_eq_some_iff.mp hhead
      rw [hp]
      exact List.mem_cons_self
    have hne : u.path ≠ [] := List.ne_nil_of_mem hslash
    rw [if_pos (List.mem_append_right _ hslash), take_dirLoop, htake, directory, if_neg hne]
    · congr 2
      rw [List.reverse_append, dropWhile_append_of_mem (List.mem_reverse.mpr hslash),
        List.reverse_append, List.reverse_reverse]
    · exact (List.prefix_append (u.scheme ++ u.authority ++ u.path) u.rest).length_le

/-! ## Redirects -/

theorem scheme_take (scheme rest : List UInt8) {n : Nat} (hn : scheme.length ≤ n) :
    ∃ more, (scheme ++ rest).take n = scheme ++ more := by
  obtain ⟨k, rfl⟩ := Nat.exists_eq_add_of_le hn
  exact ⟨rest.take k, by rw [List.take_length_add_append]⟩

/-- A redirect of a URL with a scheme leads to a URL with a scheme. -/
theorem resolve_scheme {size : Nat} {base location url : List UInt8} (hbase : schemeLen base ≠ 0)
    (h : recoveryUrlResolve size base location = some url) : schemeLen url ≠ 0 := by
  obtain ⟨scheme, rest, hscheme, hb⟩ := scheme_of_ne_zero hbase
  have hlen : schemeLen base = scheme.length := by
    rw [hb]
    exact schemeLen_append hscheme rest
  rw [recoveryUrlResolve] at h
  by_cases hloc : schemeLen location ≠ 0
  · rw [if_pos hloc] at h
    rw [printed_eq_some h]
    exact hloc
  · rw [if_neg hloc] at h
    by_cases htwo : location.head? = some 47 ∧ location.tail.head? = some 47
    · -- the scheme up to its colon, and a location with the slashes
      rw [if_pos htwo] at h
      dsimp only at h
      rw [if_pos hbase] at h
      rw [printed_eq_some h, hlen, hb]
      obtain ⟨l, hl⟩ := List.head?_eq_some_iff.mp htwo.1
      rw [hl, List.tail_cons] at htwo
      obtain ⟨l', hl'⟩ := List.head?_eq_some_iff.mp htwo.2
      rw [hl, hl']
      rcases hscheme with rfl | rfl
      · exact schemeLen_ne_zero (Or.inl rfl) l'
      · exact schemeLen_ne_zero (Or.inr rfl) l'
    · rw [if_neg htwo] at h
      by_cases hone : location.head? = some 47
      · rw [if_pos hone] at h
        rw [printed_eq_some h, hlen, hb]
        obtain ⟨more, hmore⟩ := scheme_take scheme rest
          (Nat.le_add_right _ (cspn ((scheme ++ rest).drop scheme.length) [47, 63, 35]))
        rw [hmore, List.append_assoc]
        exact schemeLen_ne_zero hscheme _
      · rw [if_neg hone] at h
        obtain ⟨u, hu⟩ := HttpUrl.exists_of_scheme hbase
        rw [← hu, fileUrl_text] at h
        rw [printed_eq_some h, List.append_assoc, List.append_assoc]
        exact schemeLen_ne_zero u.scheme_eq _

/-- Every URL reached has a scheme. -/
theorem Reached.scheme {base url : List UInt8} (hbase : schemeLen base ≠ 0)
    (h : Reached base url) : schemeLen url ≠ 0 := by
  induction h with
  | base => exact hbase
  | redirect _ hstep ih => exact resolve_scheme ih hstep

/-! ## File names -/

/-- A file name a manifest holds has no `?` and no `#`. -/
theorem copyFileName_plain {v name : List UInt8} (h : copyFileName v = some name) :
    ∀ c ∈ name, c ≠ 63 ∧ c ≠ 35 := by
  obtain ⟨rfl, -, hname⟩ := (copyFileName_iff v name).mp h
  intro c hc
  by_cases hslash : c = 47
  · rw [hslash]
    decide
  · obtain ⟨seg, hseg, hmem⟩ := mem_segment hc hslash
    have hchar := (hname seg hseg).chars c hmem
    constructor
    · rintro rfl
      exact absurd hchar (by decide)
    · rintro rfl
      exact absurd hchar (by decide)

theorem directory_head (path : List UInt8) (h : path = [] ∨ path.head? = some 47) :
    (directory path).head? = some 47 := by
  rw [directory]
  rcases h with rfl | h
  · rfl
  · obtain ⟨p, rfl⟩ := List.head?_eq_some_iff.mp h
    rw [if_neg (List.cons_ne_nil 47 p), List.reverse_cons]
    by_cases hp : 47 ∈ p.reverse
    · rw [dropWhile_append_of_mem hp, List.reverse_append]
      rfl
    · have hall : ∀ c ∈ p.reverse, (c != 47) = true := by
        intro c hc
        rw [bne_iff_ne]
        rintro rfl
        exact hp hc
      rw [List.dropWhile_append_of_pos hall]
      rfl

theorem directory_plain (u : HttpUrl) : ∀ c ∈ directory u.path, c ≠ 63 ∧ c ≠ 35 := by
  intro c hc
  rw [directory] at hc
  split at hc
  · rw [List.mem_singleton.mp hc]
    decide
  · refine u.path_plain c ?_
    have hmem := List.mem_reverse.mp hc
    exact List.mem_reverse.mp ((List.dropWhile_suffix _).subset hmem)

/-- The URL of a file in the directory of `u`. -/
def HttpUrl.file (u : HttpUrl) (name : List UInt8) (hname : ∀ c ∈ name, c ≠ 63 ∧ c ≠ 35) :
    HttpUrl where
  scheme := u.scheme
  authority := u.authority
  path := directory u.path ++ name
  rest := []
  scheme_eq := u.scheme_eq
  authority_plain := u.authority_plain
  path_head := by
    obtain ⟨p, hp⟩ := List.head?_eq_some_iff.mp (directory_head u.path u.path_head)
    refine Or.inr ?_
    rw [hp]
    rfl
  path_plain := by
    intro c hc
    rcases List.mem_append.mp hc with hc | hc
    · exact directory_plain u c hc
    · exact hname c hc
  rest_head := Or.inl rfl

/-- **MANIFEST URLS**: from a base URL with the scheme `http://` or `https://`
    every redirect leads to a URL with one of them, and the URL of a file a
    manifest names has the scheme and the authority of the manifest's URL, and
    for its path the directory of that URL's path and the name; or the call
    fails, which it does exactly when the text does not fit. -/
theorem manifestUrl_files {base url : List UInt8} (hbase : schemeLen base ≠ 0)
    (h : Reached base url) :
    (http <+: url ∨ https <+: url) ∧
    ∃ u : HttpUrl, u.text = url ∧ ∀ v name, copyFileName v = some name → ∀ size,
      ∃ f : HttpUrl, f.scheme = u.scheme ∧ f.authority = u.authority ∧
        f.path = directory u.path ++ name ∧ f.rest = [] ∧
        recoveryFileUrl size url name =
          if f.text.length < size ∧ f.text.length < 2 ^ 31 then some f.text else none := by
  have hurl := h.scheme hbase
  constructor
  · obtain ⟨scheme, rest, rfl | rfl, rfl⟩ := scheme_of_ne_zero hurl
    · exact Or.inl (List.prefix_append _ _)
    · exact Or.inr (List.prefix_append _ _)
  · obtain ⟨u, rfl⟩ := HttpUrl.exists_of_scheme hurl
    refine ⟨u, rfl, fun v name hname size => ?_⟩
    refine ⟨u.file name (copyFileName_plain hname), rfl, rfl, rfl, rfl, ?_⟩
    have htext : (u.file name (copyFileName_plain hname)).text
        = u.scheme ++ u.authority ++ directory u.path ++ name := by
      show u.scheme ++ u.authority ++ (directory u.path ++ name) ++ [] = _
      rw [List.append_nil, ← List.append_assoc]
    rw [fileUrl_text, htext, printed]

/-- `http://h` is redirected to `/b/c`; the file `f` is beside that. -/
theorem manifestUrl_files_redirected :
    (http <+: http ++ [104, 47, 98, 47, 99] ∨ https <+: http ++ [104, 47, 98, 47, 99]) ∧
    ∃ u f : HttpUrl, u.text = http ++ [104, 47, 98, 47, 99] ∧ f.authority = u.authority ∧
      f.path = directory u.path ++ [102] ∧
      recoveryFileUrl 32 (http ++ [104, 47, 98, 47, 99]) [102] = some f.text := by
  have hbase : schemeLen (http ++ [104]) ≠ 0 := by decide
  have hstep : recoveryUrlResolve 32 (http ++ [104]) [47, 98, 47, 99]
      = some (http ++ [104, 47, 98, 47, 99]) := by decide +kernel
  obtain ⟨hscheme, u, hu, hfile⟩ := manifestUrl_files hbase (.redirect .base hstep)
  obtain ⟨f, -, hauth, hpath, -, hf⟩ := hfile [102] [102] (by decide) 32
  refine ⟨hscheme, u, f, hu, hauth, hpath, ?_⟩
  rw [hf]
  split at hf
  · next hfits => exact if_pos hfits
  · exact absurd hf (by decide +kernel)

end RecoveryUrl

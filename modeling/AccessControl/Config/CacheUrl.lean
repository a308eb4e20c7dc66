import AccessControl.Net.Url

/-! # Where the cache is

A remote cache is reached over the net or, on the same machine, by a file.  Its URL may give
the user, the number of a database and the version of the protocol.
-/
namespace AccessControl.Config

/-- The schemes of a cache on the net; a secured connection is not supported. -/
def netSchemes : List String := ["redis", "valkey"]

/-- The schemes of a cache that is reached by a file. -/
def fileSchemes : List String := ["unix", "redis+unix", "valkey+unix"]

/-- The versions of the protocol, by name. -/
def protocolNames : List String := ["2", "resp2", "3", "resp3"]

/-- Whether a text is the number of a database. -/
def isDatabase (cs : List Char) : Bool := (Decimal.read .signed64 cs).isOk

/-- Whether a machine can be connected to: it does not stand for all addresses. -/
def isReachable : Net.Host → Bool
  | .name s => s ≠ "0.0.0.0"
  | .v6 groups => groups.any (· ≠ 0)

/-- Whether the version of the protocol is a known one, if the URL gives it. -/
def hasKnownProtocol (url : Net.Url) : Bool :=
  match url.parameter? "protocol" with
  | none => true
  | some none => false
  | some (some name) => protocolNames.contains name

/-- Whether a user and password are texts. -/
def hasReadableUser (url : Net.Url) : Bool :=
  (Percent.decode? url.user).isSome && (Percent.decode? url.password).isSome

/-- Whether the path is the number of a database, with slashes around, or nothing but
slashes. -/
def hasDatabasePath (url : Net.Url) : Bool :=
  let path := url.path.toList
  let inner := ((path.dropWhile (· == '/')).reverse.dropWhile (· == '/')).reverse
  inner.isEmpty || isDatabase inner

/-- Whether the parameter for the database is a number, if it is there. -/
def hasDatabaseParameter (url : Net.Url) : Bool :=
  match url.parameter? "db" with
  | none => true
  | some none => false
  | some (some number) => isDatabase number.toList

/-- Whether a URL is that of a cache on the net. -/
def isNetCache (url : Net.Url) : Bool :=
  netSchemes.contains url.scheme && url.host.any isReachable && hasDatabasePath url &&
    hasReadableUser url && hasKnownProtocol url

/-- Whether a URL is that of a cache that is reached by a file on the same machine. -/
def isFileCache (url : Net.Url) : Bool :=
  fileSchemes.contains url.scheme && url.path.startsWith "/" &&
    url.host.all (· = .name "localhost") && hasDatabaseParameter url && hasKnownProtocol url

/-- Whether a text is the URL of a remote cache. -/
def isCacheUrl (s : String) : Bool :=
  (Net.Url.ofText? s).any (fun url => isNetCache url || isFileCache url)

end AccessControl.Config

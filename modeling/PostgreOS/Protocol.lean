/-
The local protocol between `pgos` and `pgosd`.

The values are those of the source; how `bincode` lays them out is a pair of codecs
that the rest takes as a parameter.
-/

import PostgreOS.Library.Frames
import PostgreOS.Text

namespace PostgreOS.Protocol

open Library.Frames

def VERSION : Nat := 13

def MAX_FRAME_SIZE : Nat := 64 * 1024 * 1024

structure Timestamp where
  seconds : Int
  nanoseconds : Nat
  deriving DecidableEq, Repr

inductive Operation where
  | readRange (path : Text) (offset : Nat) (length : Nat)
  | textStream (path : Text) (literals : Option (List Text)) (word : Option Text)
      (minimumAsciiLetters : Option Nat)
  | grepFile (path pattern : Text) (lineNumber : Bool)
  | list (path : Text)
  | listNames (path : Text)
  | listOutput (path : Text) (all : Bool)
  | stat (path : Text)
  | inode (id : Int)
  | read (path : Text)
  | readMany (paths : List Text)
  | cat (paths : List Text)
  | write (path : Text) (data : Bytes)
  | writeEntry (path : Text) (data : Bytes)
  | walk (path : Text)
  | find (root : Text) (namePattern : Option Text) (kind : Option Int)
  | findPaths (root : Text) (namePattern : Option Text) (kind : Option Int)
  | findOutput (root : Text) (namePattern : Option Text) (kind : Option Int) (pathPrefix : Text)
  | diskUsage (path : Text)
  | searchLiteral (root needle : Text)
  | searchLiteralFiles (root needle : Text)
  | grepLiteralOutput (root needle : Text) (lineNumber : Bool) (pathPrefix : Text)
  | grepRegexOutput (root pattern : Text) (lineNumber : Bool) (pathPrefix : Text)
      (fileSuffixes : List Text)
  | mkdir (path : Text) (parents : Bool)
  | mkdirEntry (path : Text) (parents : Bool)
  | setTimes (path : Text) (atime mtime : Timestamp)
  | mkdirMany (paths : List Text) (parents : Bool)
  | copy (source destination : Text) (recursive : Bool)
  | move (source destination : Text)
  | remove (path : Text) (recursive : Bool)
  | removeMany (paths : List Text) (recursive force : Bool)
  deriving DecidableEq, Repr

/-- The operations that the daemon answers with any number of data frames. -/
def Operation.streaming : Operation → Bool
  | .grepFile .. => true
  | .textStream .. => true
  | .grepRegexOutput .. => true
  | _ => false

structure Request where
  version : Nat
  volume : Text
  operation : Operation
  deriving DecidableEq, Repr

def Request.new (volume : Text) (operation : Operation) : Request :=
  { version := VERSION, volume := volume, operation := operation }

structure TextFile where
  path : Text
  text : Text
  deriving DecidableEq, Repr

structure Entry where
  id : Int
  path : Text
  name : Text
  kind : Int
  mode : Int
  uid : Int
  gid : Int
  size : Int
  generation : Int
  atimeSeconds : Int
  atimeNanoseconds : Nat
  mtimeSeconds : Int
  mtimeNanoseconds : Nat
  ctimeSeconds : Int
  ctimeNanoseconds : Nat
  deriving DecidableEq, Repr

inductive Output where
  | searchDone (found : Bool)
  | entries (entries : List Entry)
  | paths (paths : List Text)
  | names (names : List Text)
  | textFiles (files : List TextFile)
  | searchOutput (data : Bytes) (found : Bool)
  | entry (entry : Entry)
  | data (data : Bytes)
  | dataMany (data : List Bytes)
  | count (count : Int)
  | unit
  deriving DecidableEq, Repr

structure RemoteError where
  message : Text
  deriving DecidableEq, Repr

structure Response where
  version : Nat
  result : Except RemoteError Output
  deriving DecidableEq, Repr

inductive ProtocolError where
  | io
  | frame (error : FrameError)
  deriving DecidableEq, Repr

/-- `bincode` for the two values that go over the socket. -/
structure Codecs where
  request : Codec Request
  response : Codec Response

def Response.data (data : Bytes) : Response :=
  { version := VERSION, result := .ok (.data data) }

end PostgreOS.Protocol

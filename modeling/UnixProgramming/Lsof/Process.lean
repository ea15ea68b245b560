import UnixProgramming.Lsof.File

/-!
# Examining a process

The constructor of `process`: its stages fill one record, and each does nothing once a
stage before it has found that the process is gone.

* `setCommand`, `setUserName`, `handleSpecialFiles`, `handleMemoryMaps`,
  `handleFileDescriptors`, `printOpeningFiles` — the stages.
* `process` — all of them, and what is printed.
-/

namespace Lsof

open CString

/-- A process under examination. -/
structure Process where
  path : Str
  command : Str
  pid : Str
  userName : Str
  /-- The names recorded so far. -/
  hash : List Str
  fileList : List File
  alive : Bool

/-- The three regular expressions, as what `regex_search` finds them in. -/
structure Filters where
  command : Str → Bool
  type : Str → Bool
  fileName : Str → Bool

/-- The users by their number; a number not in the table gets an empty name. -/
abbrev UserTable := BitVec 32 → Option Str

/-- The size of the buffers. -/
def bufferSize : Nat := 1024

/-- `path` of a process. -/
def procPath (dirName : Str) : Str := "/proc/".toList ++ dirName

/-- The files of a process that are read, and the link of a descriptor. -/
def commPath (path : Str) : Str := path ++ "/comm".toList
def mapsPath (path : Str) : Str := path ++ "/maps".toList
def fdDir (path : Str) : Str := path ++ "/fd".toList
def fdLink (path fileDescriptor : Str) : Str := path ++ "/fd/".toList ++ fileDescriptor

/-- `set_command`.  The terminator replaces the last character read. -/
def setCommand (fs : ProcFs) (p : Process) : Except Fault Process :=
  if p.alive = false then .ok p
  else
    match fs.openFile (commPath p.path) with
    | none => .ok { p with alive := false }
    | some fd =>
        match fs.read fd with
        | none => .ok { p with alive := false }
        | some text =>
            let buffer := text.take bufferSize
            if buffer.length = 0 then .error .overrun
            else .ok { p with command := cstr (buffer.take (buffer.length - 1)) }

/-- `set_pid`. -/
def setPid (dirName : Str) (p : Process) : Process :=
  if p.alive = false then p else { p with pid := dirName }

/-- `set_user_name`. -/
def setUserName (fs : ProcFs) (userTable : UserTable) (p : Process) : Process :=
  if p.alive = false then p
  else
    match fs.stat p.path with
    | none => { p with alive := false }
    | some statbuf => { p with userName := (userTable statbuf.uid).getD [] }

/-- The name a link text is listed under. -/
def linkName (buffer : Str) : Str := eraseFirst " (deleted)".toList (cstr buffer)

/-- The loop of `handle_special_files`.  The terminator goes after what `readlink` has
filled in, also when that is the whole buffer. -/
def specialFiles (fs : ProcFs) : List (Str × Str) → Process → Except Fault Process
  | [], p => .ok p
  | tar :: rest, p =>
      match fs.readlink tar.2 with
      | .error errsv =>
          if errsv = eacces then
            specialFiles fs rest { p with
              fileList := p.fileList ++ [File.ofFields tar.1
                (tar.2 ++ " (Permission denied)".toList) [] "unknown".toList] }
          else .ok { p with alive := false }
      | .ok text =>
          let buffer := text.take bufferSize
          if buffer.length = bufferSize then .error .overrun
          else
            match File.ofPath fs tar.1 tar.2 (linkName buffer) with
            | none => .ok { p with alive := false }
            | some f =>
                specialFiles fs rest { p with
                  fileList := p.fileList ++ [f]
                  hash := p.hash ++ [linkName buffer] }

/-- The links of `handle_special_files`. -/
def specialTargets (path : Str) : List (Str × Str) :=
  [("cwd".toList, path ++ "/cwd".toList), ("rtd".toList, path ++ "/root".toList),
    ("txt".toList, path ++ "/exe".toList)]

/-- `handle_special_files`. -/
def handleSpecialFiles (fs : ProcFs) (p : Process) : Except Fault Process :=
  if p.alive = false then .ok p else specialFiles fs (specialTargets p.path) p

/-- The delimiters of a line of `maps`. -/
def isBlank (c : Char) : Bool := c = ' ' || c = '\t' || c = '\n'

/-- The tokens of what one `fgets` has read. -/
def mapTokens (piece : Str) : List Str := words isBlank (cstr piece)

/-- The letters that mark a removed file. -/
def mapField (fileName : Str) : Str :=
  if (findSub "deleted".toList fileName).isSome then "DEL".toList else "mem".toList

/-- The loop of `handle_memory_maps` over what `fgets` reads.  A token that is not there
makes a string of a null pointer. -/
def mapLines : List Str → Process → Except Fault Process
  | [], p => .ok p
  | piece :: rest, p =>
      match (mapTokens piece)[4]? with
      | none => .error .nullToken
      | some inode =>
          if inode = "0".toList then mapLines rest p
          else
            match (mapTokens piece)[5]? with
            | none => .error .nullToken
            | some fileName =>
                if fileName ∈ p.hash then mapLines rest p
                else
                  mapLines rest { p with
                    hash := p.hash ++ [fileName]
                    fileList := p.fileList ++
                      [File.ofFields (mapField fileName) fileName inode "REG".toList] }

/-- `handle_memory_maps`. -/
def handleMemoryMaps (fs : ProcFs) (p : Process) : Except Fault Process :=
  if p.alive = false then .ok p
  else
    match fs.fopen (mapsPath p.path) with
    | .error errsv => if errsv = eacces then .ok p else .ok { p with alive := false }
    | .ok text => mapLines (fgetsPieces bufferSize text) p

/-- The loop of `handle_file_descriptors` over what `readdir` hands out. -/
def fileDescriptors (fs : ProcFs) : List Str → Process → Except Fault Process
  | [], p => .ok p
  | fileDescriptor :: rest, p =>
      if fileDescriptor = ".".toList ∨ fileDescriptor = "..".toList then fileDescriptors fs rest p
      else
        let link := fdLink p.path fileDescriptor
        match fs.readlink link with
        | .error _ => fileDescriptors fs rest p
        | .ok text =>
            let buffer := text.take bufferSize
            if buffer.length = bufferSize then .error .overrun
            else
              match File.ofPath fs fileDescriptor link (linkName buffer) with
              | none => fileDescriptors fs rest p
              | some f =>
                  fileDescriptors fs rest { p with
                    fileList := p.fileList ++ [f]
                    hash := p.hash ++ [linkName buffer] }

/-- `handle_file_descriptors`. -/
def handleFileDescriptors (fs : ProcFs) (p : Process) : Except Fault Process :=
  if p.alive = false then .ok p
  else
    match fs.opendir (fdDir p.path) with
    | .error errsv =>
        if errsv = eacces then
          .ok { p with
            fileList := p.fileList ++ [File.ofFields "NOFD".toList
              (fdDir p.path ++ " (Permission denied)".toList) [] []] }
        else .ok { p with alive := false }
    | .ok names => fileDescriptors fs names p

/-- A printed row. -/
def rowText (command pid userName : Str) (f : File) : Str :=
  List.intercalate "\t\t".toList [command, pid, userName, f.fd, f.type, f.inode, f.name] ++ ['\n']

/-- `print_opening_files`. -/
def printOpeningFiles (filters : Filters) (p : Process) : List Str :=
  if p.alive = false then []
  else if filters.command p.command = false then []
  else
    (p.fileList.filter fun f => filters.type f.type && filters.fileName f.name).map
      (rowText p.command p.pid p.userName)

/-- The constructor `process`, and the rows it prints. -/
def process (fs : ProcFs) (userTable : UserTable) (dirName : Str) (filters : Filters) :
    Except Fault (List Str) := do
  let p ← setCommand fs ⟨procPath dirName, [], [], [], [], [], true⟩
  let p := setUserName fs userTable (setPid dirName p)
  let p ← handleSpecialFiles fs p
  let p ← handleMemoryMaps fs p
  let p ← handleFileDescriptors fs p
  return printOpeningFiles filters p

end Lsof

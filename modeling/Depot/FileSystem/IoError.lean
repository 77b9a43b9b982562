/-!
# Failures of the operating system

An `IoError` is a failure of a read, a write or an operation on a path: either a number of the
operating system, or a kind of its own, with or without a text.  `IoError.kind` classifies it and
`IoError.message` is its text; the texts of the numbers are those of the system's own table.
-/

namespace Depot

/-- The classes of failure that callers tell apart. -/
inductive ErrorKind
  | addrInUse
  | addrNotAvailable
  | alreadyExists
  | argumentListTooLong
  | brokenPipe
  | connectionAborted
  | connectionRefused
  | connectionReset
  | crossesDevices
  | deadlock
  | directoryNotEmpty
  | executableFileBusy
  | fileTooLarge
  | filesystemLoop
  | hostUnreachable
  | inProgress
  | inputOutputError
  | interrupted
  | invalidData
  | invalidFilename
  | invalidInput
  | isADirectory
  | networkDown
  | networkUnreachable
  | notADirectory
  | notConnected
  | notFound
  | notSeekable
  | other
  | outOfMemory
  | permissionDenied
  | quotaExceeded
  | readOnlyFilesystem
  | resourceBusy
  | staleNetworkFileHandle
  | storageFull
  | timedOut
  | tooManyLinks
  | uncategorized
  | unexpectedEof
  | unsupported
  | wouldBlock
deriving DecidableEq, Repr, Inhabited

namespace ErrorKind

def name : ErrorKind → String
  | .addrInUse => "AddrInUse"
  | .addrNotAvailable => "AddrNotAvailable"
  | .alreadyExists => "AlreadyExists"
  | .argumentListTooLong => "ArgumentListTooLong"
  | .brokenPipe => "BrokenPipe"
  | .connectionAborted => "ConnectionAborted"
  | .connectionRefused => "ConnectionRefused"
  | .connectionReset => "ConnectionReset"
  | .crossesDevices => "CrossesDevices"
  | .deadlock => "Deadlock"
  | .directoryNotEmpty => "DirectoryNotEmpty"
  | .executableFileBusy => "ExecutableFileBusy"
  | .fileTooLarge => "FileTooLarge"
  | .filesystemLoop => "FilesystemLoop"
  | .hostUnreachable => "HostUnreachable"
  | .inProgress => "InProgress"
  | .inputOutputError => "InputOutputError"
  | .interrupted => "Interrupted"
  | .invalidData => "InvalidData"
  | .invalidFilename => "InvalidFilename"
  | .invalidInput => "InvalidInput"
  | .isADirectory => "IsADirectory"
  | .networkDown => "NetworkDown"
  | .networkUnreachable => "NetworkUnreachable"
  | .notADirectory => "NotADirectory"
  | .notConnected => "NotConnected"
  | .notFound => "NotFound"
  | .notSeekable => "NotSeekable"
  | .other => "Other"
  | .outOfMemory => "OutOfMemory"
  | .permissionDenied => "PermissionDenied"
  | .quotaExceeded => "QuotaExceeded"
  | .readOnlyFilesystem => "ReadOnlyFilesystem"
  | .resourceBusy => "ResourceBusy"
  | .staleNetworkFileHandle => "StaleNetworkFileHandle"
  | .storageFull => "StorageFull"
  | .timedOut => "TimedOut"
  | .tooManyLinks => "TooManyLinks"
  | .uncategorized => "Uncategorized"
  | .unexpectedEof => "UnexpectedEof"
  | .unsupported => "Unsupported"
  | .wouldBlock => "WouldBlock"

/-- The text of a failure that is nothing but its class. -/
def description : ErrorKind → String
  | .addrInUse => "address in use"
  | .addrNotAvailable => "address not available"
  | .alreadyExists => "entity already exists"
  | .argumentListTooLong => "argument list too long"
  | .brokenPipe => "broken pipe"
  | .connectionAborted => "connection aborted"
  | .connectionRefused => "connection refused"
  | .connectionReset => "connection reset"
  | .crossesDevices => "cross-device link or rename"
  | .deadlock => "deadlock"
  | .directoryNotEmpty => "directory not empty"
  | .executableFileBusy => "executable file busy"
  | .fileTooLarge => "file too large"
  | .filesystemLoop => "filesystem loop or indirection limit (e.g. symlink loop)"
  | .hostUnreachable => "host unreachable"
  | .inProgress => "in progress"
  | .inputOutputError => "input/output error"
  | .interrupted => "operation interrupted"
  | .invalidData => "invalid data"
  | .invalidFilename => "invalid filename"
  | .invalidInput => "invalid input parameter"
  | .isADirectory => "is a directory"
  | .networkDown => "network down"
  | .networkUnreachable => "network unreachable"
  | .notADirectory => "not a directory"
  | .notConnected => "not connected"
  | .notFound => "entity not found"
  | .notSeekable => "seek on unseekable file"
  | .other => "other error"
  | .outOfMemory => "out of memory"
  | .permissionDenied => "permission denied"
  | .quotaExceeded => "quota exceeded"
  | .readOnlyFilesystem => "read-only filesystem or storage medium"
  | .resourceBusy => "resource busy"
  | .staleNetworkFileHandle => "stale network file handle"
  | .storageFull => "no storage space"
  | .timedOut => "timed out"
  | .tooManyLinks => "too many links"
  | .uncategorized => "uncategorized error"
  | .unexpectedEof => "unexpected end of file"
  | .unsupported => "unsupported"
  | .wouldBlock => "operation would block"

def ofCode : Nat → ErrorKind
  | 1 => .permissionDenied
  | 2 => .notFound
  | 4 => .interrupted
  | 5 => .inputOutputError
  | 7 => .argumentListTooLong
  | 11 => .wouldBlock
  | 12 => .outOfMemory
  | 13 => .permissionDenied
  | 16 => .resourceBusy
  | 17 => .alreadyExists
  | 18 => .crossesDevices
  | 20 => .notADirectory
  | 21 => .isADirectory
  | 22 => .invalidInput
  | 26 => .executableFileBusy
  | 27 => .fileTooLarge
  | 28 => .storageFull
  | 29 => .notSeekable
  | 30 => .readOnlyFilesystem
  | 31 => .tooManyLinks
  | 32 => .brokenPipe
  | 35 => .deadlock
  | 36 => .invalidFilename
  | 38 => .unsupported
  | 39 => .directoryNotEmpty
  | 40 => .filesystemLoop
  | 95 => .unsupported
  | 98 => .addrInUse
  | 99 => .addrNotAvailable
  | 100 => .networkDown
  | 101 => .networkUnreachable
  | 103 => .connectionAborted
  | 104 => .connectionReset
  | 107 => .notConnected
  | 110 => .timedOut
  | 111 => .connectionRefused
  | 113 => .hostUnreachable
  | 115 => .inProgress
  | 116 => .staleNetworkFileHandle
  | 122 => .quotaExceeded
  | _ => .uncategorized

end ErrorKind

/-! ## Error numbers -/

namespace Errno

def noEntry : Nat := 2
def busy : Nat := 16
def entryExists : Nat := 17
def notDirectory : Nat := 20
def isDirectory : Nat := 21
def invalid : Nat := 22
def nameTooLong : Nat := 36
def notEmpty : Nat := 39
def tooManyLinks : Nat := 40

def texts : List (Nat × String) := [
  (0, "Success"),
  (1, "Operation not permitted"),
  (2, "No such file or directory"),
  (3, "No such process"),
  (4, "Interrupted system call"),
  (5, "Input/output error"),
  (6, "No such device or address"),
  (7, "Argument list too long"),
  (8, "Exec format error"),
  (9, "Bad file descriptor"),
  (10, "No child processes"),
  (11, "Resource temporarily unavailable"),
  (12, "Cannot allocate memory"),
  (13, "Permission denied"),
  (14, "Bad address"),
  (15, "Block device required"),
  (16, "Device or resource busy"),
  (17, "File exists"),
  (18, "Invalid cross-device link"),
  (19, "No such device"),
  (20, "Not a directory"),
  (21, "Is a directory"),
  (22, "Invalid argument"),
  (23, "Too many open files in system"),
  (24, "Too many open files"),
  (25, "Inappropriate ioctl for device"),
  (26, "Text file busy"),
  (27, "File too large"),
  (28, "No space left on device"),
  (29, "Illegal seek"),
  (30, "Read-only file system"),
  (31, "Too many links"),
  (32, "Broken pipe"),
  (33, "Numerical argument out of domain"),
  (34, "Numerical result out of range"),
  (35, "Resource deadlock avoided"),
  (36, "File name too long"),
  (37, "No locks available"),
  (38, "Function not implemented"),
  (39, "Directory not empty"),
  (40, "Too many levels of symbolic links"),
  (42, "No message of desired type"),
  (43, "Identifier removed"),
  (44, "Channel number out of range"),
  (45, "Level 2 not synchronized"),
  (46, "Level 3 halted"),
  (47, "Level 3 reset"),
  (48, "Link number out of range"),
  (49, "Protocol driver not attached"),
  (50, "No CSI structure available"),
  (51, "Level 2 halted"),
  (52, "Invalid exchange"),
  (53, "Invalid request descriptor"),
  (54, "Exchange full"),
  (55, "No anode"),
  (56, "Invalid request code"),
  (57, "Invalid slot"),
  (59, "Bad font file format"),
  (60, "Device not a stream"),
  (61, "No data available"),
  (62, "Timer expired"),
  (63, "Out of streams resources"),
  (64, "Machine is not on the network"),
  (65, "Package not installed"),
  (66, "Object is remote"),
  (67, "Link has been severed"),
  (68, "Advertise error"),
  (69, "Srmount error"),
  (70, "Communication error on send"),
  (71, "Protocol error"),
  (72, "Multihop attempted"),
  (73, "RFS specific error"),
  (74, "Bad message"),
  (75, "Value too large for defined data type"),
  (76, "Name not unique on network"),
  (77, "File descriptor in bad state"),
  (78, "Remote address changed"),
  (79, "Can not access a needed shared library"),
  (80, "Accessing a corrupted shared library"),
  (81, ".lib section in a.out corrupted"),
  (82, "Attempting to link in too many shared libraries"),
  (83, "Cannot exec a shared library directly"),
  (84, "Invalid or incomplete multibyte or wide character"),
  (85, "Interrupted system call should be restarted"),
  (86, "Streams pipe error"),
  (87, "Too many users"),
  (88, "Socket operation on non-socket"),
  (89, "Destination address required"),
  (90, "Message too long"),
  (91, "Protocol wrong type for socket"),
  (92, "Protocol not available"),
  (93, "Protocol not supported"),
  (94, "Socket type not supported"),
  (95, "Operation not supported"),
  (96, "Protocol family not supported"),
  (97, "Address family not supported by protocol"),
  (98, "Address already in use"),
  (99, "Cannot assign requested address"),
  (100, "Network is down"),
  (101, "Network is unreachable"),
  (102, "Network dropped connection on reset"),
  (103, "Software caused connection abort"),
  (104, "Connection reset by peer"),
  (105, "No buffer space available"),
  (106, "Transport endpoint is already connected"),
  (107, "Transport endpoint is not connected"),
  (108, "Cannot send after transport endpoint shutdown"),
  (109, "Too many references: cannot splice"),
  (110, "Connection timed out"),
  (111, "Connection refused"),
  (112, "Host is down"),
  (113, "No route to host"),
  (114, "Operation already in progress"),
  (115, "Operation now in progress"),
  (116, "Stale file handle"),
  (117, "Structure needs cleaning"),
  (118, "Not a XENIX named type file"),
  (119, "No XENIX semaphores available"),
  (120, "Is a named type file"),
  (121, "Remote I/O error"),
  (122, "Disk quota exceeded"),
  (123, "No medium found"),
  (124, "Wrong medium type"),
  (125, "Operation canceled"),
  (126, "Required key not available"),
  (127, "Key has expired"),
  (128, "Key has been revoked"),
  (129, "Key was rejected by service"),
  (130, "Owner died"),
  (131, "State not recoverable"),
  (132, "Operation not possible due to RF-kill"),
  (133, "Memory page has hardware error")]

def text (code : Nat) : String :=
  (texts.lookup code).getD s!"Unknown error {code}"

end Errno

/-- A failed operation of the operating system or of a stream. -/
inductive IoError
  /-- An error number of the operating system. -/
  | os (code : Nat)
  /-- A class without a text of its own. -/
  | bare (kind : ErrorKind)
  | custom (kind : ErrorKind) (text : String)
  /-- A failure at one path of a walk. -/
  | atPath (path : String) (cause : IoError)
deriving DecidableEq, Repr, Inhabited

namespace IoError

def kind : IoError → ErrorKind
  | os code => .ofCode code
  | bare kind => kind
  | custom kind _ => kind
  | atPath _ cause => cause.kind

def message : IoError → String
  | os code => s!"{Errno.text code} (os error {code})"
  | bare kind => kind.description
  | custom _ text => text
  | atPath path cause => s!"IO error for operation on {path}: {cause.message}"

def causes : IoError → List IoError
  | atPath _ cause => cause :: cause.causes
  | _ => []

/-- The failure of every operation on a path that holds a zero byte. -/
def zeroByte : IoError := custom .invalidInput "file name contained an unexpected NUL byte"

abbrev noEntry : IoError := os Errno.noEntry
abbrev notDirectory : IoError := os Errno.notDirectory
abbrev isDirectory : IoError := os Errno.isDirectory
abbrev alreadyExists : IoError := os Errno.entryExists
abbrev nameTooLong : IoError := os Errno.nameTooLong
abbrev notEmpty : IoError := os Errno.notEmpty
abbrev tooManyLinks : IoError := os Errno.tooManyLinks
abbrev invalid : IoError := os Errno.invalid
abbrev busy : IoError := os Errno.busy

end IoError

end Depot

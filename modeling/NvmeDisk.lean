import NvmeDisk.Queue.Full
import NvmeDisk.Queue.Late
import NvmeDisk.Requests.Answered
import NvmeDisk.Requests.Bouncing
import NvmeDisk.Requests.Failing
import NvmeDisk.Requests.Formats
import NvmeDisk.Requests.Looping
import NvmeDisk.Requests.Serving
import NvmeDisk.Requests.Statuses
import NvmeDisk.Setup.Ownership
import NvmeDisk.Setup.Selected
import NvmeDisk.Requests.Minors
import NvmeDisk.Requests.Reach
import NvmeDisk.Requests.Limits
import NvmeDisk.Requests.Reporting
import NvmeDisk.Requests.Serialising
import NvmeDisk.Requests.Accesses
import NvmeDisk.Requests.Outages
